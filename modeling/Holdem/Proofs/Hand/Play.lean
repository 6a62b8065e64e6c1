import Holdem.Proofs.Hand.Betting
import Holdem.Proofs.Hand.Stages

/-!
# Playing keeps a hand in order

In a live hand an action is either refused, with nothing changed and the player at fault, or it
goes through, and the hand is live again or settled. The same holds of players who leave. The plan
of an accepted action fits the spot it was made for, and carrying out a plan that fits keeps the
hand in order, from where it can move on.
-/
namespace Holdem

def ActionError.isInternal : ActionError → Bool
  | .internal _ => true
  | _ => false

namespace Spot

/-- What a plan has to keep to: nobody checks a bet, and nobody puts in more than they have, or
less than the highest bet unless it is all they have. -/
def Fits (s : Spot) (p : PlayerId) : Plan → Prop
  | .check q => q = p ∧ s.hand.round.contribution p = s.hand.round.highestBet
  | .commit q _ chips allIn =>
      q = p ∧ ∃ stack, s.roster.stack? p = some stack ∧ chips ≤ stack ∧
        (allIn = true ↔ stack = chips) ∧
        (stack = chips ∨ s.hand.round.highestBet ≤ s.hand.round.contribution p + chips)
  | .fold q => q = p

section Validate
variable {s : Spot} {p : PlayerId} {a : Action} {plan : Plan} {e : ActionError} {stack : Chips}

theorem fits_commitPlan {chips : Chips} (hstack : s.roster.stack? p = some stack)
    (hle : chips ≤ stack)
    (hmatch : stack = chips ∨ s.hand.round.highestBet ≤ s.hand.round.contribution p + chips) :
    s.Fits p (s.commitPlan p a chips) :=
  ⟨rfl, stack, hstack, hle, by simp [hstack], hmatch⟩

theorem sizingPlan_fits {amount : Chips} (hb : s.hand.Bets)
    (hstack : s.roster.stack? p = some stack)
    (h : s.sizingPlan p a amount stack = .ok plan) : s.Fits p plan := by
  simp only [sizingPlan] at h
  split at h
  · cases h
  · next hmin =>
      split at h
      · cases h
      · next hcover =>
          cases h
          refine fits_commitPlan hstack (Nat.le_of_not_lt hcover) (.inr ?_)
          have hcount := hb.countable
          simp only [Round.minRaiseTo, cappedAdd] at hmin
          lia

theorem planFor_fits (hb : s.hand.Bets) (hstack : s.roster.stack? p = some stack)
    (h : s.planFor p stack a = .ok plan) : s.Fits p plan := by
  have hle := hb.highest p
  cases a with
  | check =>
      simp only [planFor] at h
      split at h
      · cases h
      · next hcall =>
          cases h
          refine ⟨rfl, ?_⟩
          simp only [Round.toCall] at hcall
          lia
  | call =>
      simp only [planFor] at h
      split at h
      · cases h
      · cases h
        apply fits_commitPlan hstack (Nat.min_le_right _ _)
        simp only [Round.toCall]
        lia
  | bet amount =>
      simp only [planFor] at h
      split at h
      · cases h
      · exact sizingPlan_fits hb hstack h
  | raise amount =>
      simp only [planFor] at h
      split at h
      · cases h
      · exact sizingPlan_fits hb hstack h
  | fold =>
      cases h
      rfl
  | allIn =>
      cases h
      exact fits_commitPlan hstack (Nat.le_refl _) (.inl rfl)

theorem sizingPlan_error {amount : Chips} (h : s.sizingPlan p a amount stack = .error e) :
    e.isInternal = false := by
  simp only [sizingPlan] at h
  split at h
  · cases h
    rfl
  · split at h
    · cases h
      rfl
    · cases h

theorem planFor_error (h : s.planFor p stack a = .error e) : e.isInternal = false := by
  cases a with
  | check | call =>
      simp only [planFor] at h
      split at h
      · cases h
        rfl
      · cases h
  | bet amount | raise amount =>
      simp only [planFor] at h
      split at h
      · cases h
        rfl
      · exact sizingPlan_error h
  | fold | allIn => cases h

/-- A refused action is always the player's mistake. -/
theorem validate_error (h : s.validate p a = .error e) : e.isInternal = false := by
  unfold validate at h
  split at h
  · cases h
    rfl
  · split at h
    · cases h
      rfl
    · split at h
      · cases h
        rfl
      · split at h
        · cases h
          rfl
        · exact planFor_error h

theorem validate_ok (h : s.validate p a = .ok plan) :
    s.hand.currentPlayer = some p ∧
      ∃ stack, s.roster.stack? p = some stack ∧ s.planFor p stack a = .ok plan := by
  unfold validate at h
  split at h
  · cases h
  · split at h
    · cases h
    · split at h
      · cases h
      · next hcur =>
          split at h
          · cases h
          · next stack hstack => exact ⟨of_not_not hcur, stack, hstack, h⟩

/-- The player on turn is heard. -/
theorem validate_of_current (hphase : s.hand.phase.isBetting = true)
    (hdealt : s.hand.isDealtIn p = true) (hcur : s.hand.currentPlayer = some p)
    (hstack : s.roster.stack? p = some stack) :
    s.validate p a = s.planFor p stack a := by
  rw [validate, hphase, hdealt, hstack, if_neg (by simp), if_neg (by simp),
    if_neg (not_not.mpr hcur)]

end Validate

end Spot

namespace Hand
variable {h : Hand} {r : Roster} {p q : PlayerId}

/-! ## Checking and folding -/

/-- Whoever has matched the highest bet may leave it at that. -/
theorem Steady.settleAction (hs : h.Steady r)
    (hmatch : h.round.contribution p = h.round.highestBet) :
    Hand.Steady { h with round := h.round.settleAction p } r where
  places := { hs.places with }
  bets :=
    { hs.bets with
      able := fun q hq => hs.bets.able q (NatSet.mem_erase.mp hq).1
      matched := fun q hq hnot => by
        by_cases hqp : q = p
        · rw [hqp]
          exact hmatch
        · exact hs.bets.matched q hq fun h => hnot (NatSet.mem_erase.mpr ⟨h, hqp⟩) }
  books := { hs.books with }
  balanced := { hs.balanced with }
  betting := hs.betting

/-- A hand after a fold, with the turn at a place among those left standing. -/
def withFold (h : Hand) (p : PlayerId) (place : Nat) : Hand :=
  Hand.emit
    { h.markFolded p with
      stakes := h.stakes.fold p
      round := h.round.settleAction p
      turns := ⟨h.turns.order.filter (· ≠ p), place⟩ }
    (.playerFolded p)

theorem isFolded_withFold {place : Nat} (hp : h.isDealtIn p = true) :
    (h.withFold p place).isFolded q = (decide (q = p) || h.isFolded q) :=
  isFolded_markFolded hp

theorem mem_ableToAct_withFold {place : Nat} :
    q ∈ (h.withFold p place).ableToAct ↔ q ∈ h.ableToAct ∧ q ≠ p := by
  rw [mem_ableToAct, mem_ableToAct]
  show q ∈ h.turns.order.filter (· ≠ p) ∧ (h.markFolded p).isAllIn q = false ↔ _
  rw [List.mem_filter, isAllIn_markFolded, decide_eq_true_eq, and_right_comm]

/-- A fold keeps the hand in order if it leaves anybody standing. -/
theorem Steady.withFold {place : Nat} (hs : h.Steady r) (hdealt : h.isDealtIn p = true)
    (hplace : place < (h.turns.order.filter (· ≠ p)).length) :
    (h.withFold p place).Steady r := by
  have hturns : ∀ q, q ∈ (h.withFold p place).turns.order → q ∈ h.turns.order := fun q hq =>
    (List.mem_filter.mp hq).1
  refine ⟨?places, ?bets, ?books, { hs.balanced with }, hs.betting⟩
  case places =>
    refine
      { hs.places with
        dealt := fun q hq => ?_
        gone := fun q hq hout => ?_
        turns_eq := ?_
        pointer := hplace
        allIn_iff := fun q hq => ?_ }
    · exact isDealtIn_markFolded.trans (hs.places.dealt q hq)
    · rw [isFolded_withFold hdealt, Bool.or_eq_true]
      exact .inr (hs.places.gone q (isDealtIn_markFolded.symm.trans hq) hout)
    · show h.turns.order.filter (· ≠ p) =
        h.dealtIn.order.filter fun q => !(h.withFold p place).isFolded q
      rw [hs.places.turns_eq, List.filter_filter]
      apply List.filter_congr
      intro q _
      rw [isFolded_withFold hdealt, Bool.not_or, decide_not]
    · exact isAllIn_markFolded.symm ▸ hs.places.allIn_iff q (hturns q hq)
  case bets =>
    refine
      { hs.bets with
        able := fun q hq => ?_
        matched := fun q hq hnot => ?_ }
    · obtain ⟨hq, hne⟩ := NatSet.mem_erase.mp hq
      exact mem_ableToAct_withFold.mpr ⟨hs.bets.able q hq, hne⟩
    · obtain ⟨hq, hne⟩ := mem_ableToAct_withFold.mp hq
      exact hs.bets.matched q hq fun h => hnot (NatSet.mem_erase.mpr ⟨h, hne⟩)
  case books =>
    refine
      { hs.books with
        folded := fun q => ?_
        stakers := fun q hq => isDealtIn_markFolded.trans (hs.books.stakers q hq)
        bettors := fun q hq => isDealtIn_markFolded.trans (hs.books.bettors q hq)
        invested := fun htotal q hq => hs.books.invested htotal q (hturns q hq)
        allIn := fun q hq hall =>
          hs.books.allIn q (hturns q hq) (isAllIn_markFolded.symm.trans hall) }
    rw [isFolded_withFold hdealt, Bool.or_eq_true, decide_eq_true_eq, ← hs.books.folded q]
    exact NatSet.mem_insert

/-- A hand after somebody was struck off those dealt in, with what is left of their stack. -/
def strike (h : Hand) (r : Roster) (p : PlayerId) (place : Nat) (next first : PlayerId) : Hand :=
  { h with
    nextDealer := next
    firstToAct := first
    dealtIn := ⟨h.dealtIn.order.filter (· ≠ p), place⟩
    departedChips := h.departedChips + (r.stack? p).getD 0 }

/-- Who is to have the button next after somebody who is struck off. -/
def buttonWithout (h : Hand) (p : PlayerId) : PlayerId :=
  if h.nextDealer = p ∧ 1 < h.dealtIn.size then
    (h.dealtIn.nextTo p).toOption.getD h.nextDealer
  else h.nextDealer

/-- From one hand to the next a player was struck off, if they were still dealt in. -/
structure Without (h h' : Hand) (p : PlayerId) : Prop where
  dealtIn : h'.dealtIn.order = h.dealtIn.order.filter (· ≠ p)
  button : h'.nextDealer = if p ∈ h.dealtIn.order then h.buttonWithout p else h.nextDealer

/-- Nobody was struck off. -/
structure KeepsButton (h h' : Hand) : Prop where
  dealtIn : h'.dealtIn = h.dealtIn
  button : h'.nextDealer = h.nextDealer

theorem KeepsButton.trans {h' h'' : Hand} (hk : h.KeepsButton h') (hk' : h'.KeepsButton h'') :
    h.KeepsButton h'' :=
  ⟨hk'.dealtIn.trans hk.dealtIn, hk'.button.trans hk.button⟩

theorem Without.keeps {h' h'' : Hand} (hw : h.Without h' p) (hk : h'.KeepsButton h'') :
    h.Without h'' p :=
  ⟨(congrArg TurnOrder.order hk.dealtIn).trans hw.dealtIn, hk.button.trans hw.button⟩

theorem not_mem_strike {place : Nat} {next first : PlayerId} :
    p ∉ (h.strike r p place next first).dealtIn.order :=
  fun hp => of_decide_eq_true (List.mem_filter.mp hp).2 rfl

/-- Whoever has folded may be struck off. -/
theorem Steady.strike {place : Nat} {next first : PlayerId} (hs : h.Steady r)
    (hfold : h.isFolded p = true) (hin : p ∈ h.dealtIn.order) :
    (h.strike r p place next first).Steady r := by
  have hsub : ∀ q ∈ h.dealtIn.order.filter (· ≠ p), q ∈ h.dealtIn.order := fun q hq =>
    (List.mem_filter.mp hq).1
  refine ⟨?places, { hs.bets with }, { hs.books with }, ?balanced, hs.betting⟩
  case places =>
    refine
      { hs.places with
        nodup := hs.places.nodup.filter _
        seated := fun q hq => hs.places.seated q (hsub q hq)
        dealt := fun q hq => hs.places.dealt q (hsub q hq)
        placed := fun q hq => hs.places.placed q (hsub q hq)
        gone := fun q hq hout => ?_
        turns_eq := ?_ }
    · by_cases hqp : q = p
      · rw [hqp]
        exact hfold
      · exact hs.places.gone q hq fun h => hout (List.mem_filter.mpr ⟨h, decide_eq_true hqp⟩)
    · show h.turns.order = (h.dealtIn.order.filter (· ≠ p)).filter fun q => !h.isFolded q
      rw [hs.places.turns_eq, List.filter_filter]
      apply List.filter_congr
      intro q _
      by_cases hqp : q = p
      · rw [hqp, hfold]
        rfl
      · rw [decide_eq_true hqp, Bool.and_true]
  case balanced =>
    refine { hs.balanced with sum := ?_ }
    have hsum := hs.balanced.sum
    rw [Roster.chipsOf_eq_add hs.places.nodup hin] at hsum
    show r.chipsOf (h.dealtIn.order.filter (· ≠ p)) + h.potTotal + (h.departedChips + _) =
      h.startingChips
    lia

end Hand

namespace Spot
variable {s : Spot} {p q : PlayerId} {a : Action} {chips : Chips} {allIn : Bool}

/-! ## Carrying out a plan -/

/-- A change that does not get anybody back into the betting, and with which no round closes. -/
structure Alters (s mid : Spot) (round : Round) : Prop where
  moves : s.Moves mid
  round : mid.hand.round = round
  phase : mid.hand.phase = s.hand.phase
  deck : mid.hand.deck = s.hand.deck
  able : mid.hand.ableToAct ⊆ s.hand.ableToAct
  closed : mid.hand.closed = s.hand.closed

theorem Alters.stocked {mid : Spot} {round : Round} (h : s.Alters mid round)
    (hst : s.hand.Stocked) : mid.hand.Stocked := by
  unfold Hand.Stocked
  rw [h.phase, h.deck]
  exact hst

/-- The bets of the round after a plan was carried out. -/
def roundAfter (h : Hand) : Plan → Round
  | .check p | .fold p => h.round.settleAction p
  | .commit p _ chips _ => (h.round.raiseOrCall p chips h.ableToAct).settleAction p

theorem turnPassed_eq (h : 0 < s.hand.turns.order.length) :
    ∃ i, s.turnPassed = done (s.mapHand (·.turnTo i)) ∧ i < s.hand.turns.order.length := by
  obtain ⟨q, i, hnext, hi⟩ := TurnOrder.next_of_pos h
  exact ⟨i, by simp only [turnPassed, hnext]; rfl, hi⟩

/-- What is told of chips that are put in by choice. -/
def betTold (p : PlayerId) (a : Action) (chips : Chips) (allIn : Bool) : GameEvent :=
  if allIn then .playerAllIn p chips else .playerActed p a chips

/-- A spot after a check, with the turn still where it was. -/
def checked (s : Spot) (p : PlayerId) : Spot :=
  s.mapHand fun h => { h with round := h.round.settleAction p }.emit (.playerActed p .check 0)

/-- A spot after chips were put in from a stack, with the turn still where it was. -/
def wagered (s : Spot) (p : PlayerId) (a : Action) (chips stack : Chips) (allIn : Bool) : Spot :=
  { s with
    roster := s.roster.setStack p (stack - chips)
    hand := ((s.hand.withBet p (roundAfter s.hand (.commit p a chips allIn)) allIn).emit
      (betTold p a chips allIn)).emitPot }

/-- What carrying out a plan does by itself, and what is told of it. -/
inductive Acts (s : Spot) : Plan → List GameEvent → Spot → Prop
  | check (p : PlayerId) (i : Nat) :
      Acts s (.check p) [.playerActed p .check 0] ((s.checked p).mapHand (·.turnTo i))
  | commit {p : PlayerId} {chips stack : Chips} (a : Action) (allIn : Bool) (i : Nat) :
      p ∈ s.hand.dealtIn.order → s.hand.isDealtIn p = true → s.roster.stack? p = some stack →
      chips ≤ stack →
      Acts s (.commit p a chips allIn)
        [betTold p a chips allIn, .potChanged (s.hand.potTotal + chips) s.hand.pots]
        ((s.wagered p a chips stack allIn).mapHand (·.turnTo i))
  | fold (p : PlayerId) (i : Nat) : s.hand.isDealtIn p = true →
      Acts s (.fold p) [.playerFolded p] (s.mapHand (·.withFold p i))

theorem withFold_alters (i : Nat) :
    s.Alters (s.mapHand (·.withFold p i)) (s.hand.round.settleAction p) where
  moves := .of_event rfl (List.Subset.refl _) rfl rfl
  round := rfl
  phase := rfl
  deck := rfl
  able _ hq := (Hand.mem_ableToAct_withFold.mp hq).1
  closed := (Hand.closed_emit ..).trans (List.append_nil _)

theorem potTotal_wagered (stack : Chips) :
    (s.wagered p a chips stack allIn).hand.potTotal = s.hand.potTotal + chips :=
  Hand.potTotal_withBet (h := s.hand) Round.contributions_raiseOrCall

theorem events_wagered (stack : Chips) :
    (s.wagered p a chips stack allIn).hand.events = s.hand.events ++
      [betTold p a chips allIn, .potChanged (s.hand.potTotal + chips) s.hand.pots] := by
  let bet := s.hand.withBet p (roundAfter s.hand (.commit p a chips allIn)) allIn
  have hpots : bet.pots = s.hand.pots := congrArg Stakes.pots Hand.stakes_withBet
  have hevents : bet.events = s.hand.events := Hand.events_withBet
  rw [show s.hand.potTotal + chips = bet.potTotal from (potTotal_wagered stack).symm, ← hevents,
    ← hpots]
  exact List.append_assoc bet.events [_] [_]

theorem wagered_alters {stack : Chips} (hin : p ∈ s.hand.dealtIn.order)
    (hdealt : s.hand.isDealtIn p = true) (hstack : s.roster.stack? p = some stack)
    (hle : chips ≤ stack) :
    s.Alters (s.wagered p a chips stack allIn)
      (roundAfter s.hand (.commit p a chips allIn)) where
  moves := by
    have hbet : s.Moves
        { s with
          roster := s.roster.setStack p (stack - chips)
          hand := s.hand.withBet p (roundAfter s.hand (.commit p a chips allIn)) allIn } :=
      .bet hin hstack hle Round.contributions_raiseOrCall
    refine { hbet with told := ⟨_, events_wagered stack, ?_⟩ }
    cases allIn <;> simp [betTold, GameEvent.isAbort]
  round := Hand.round_withBet
  phase := (congrArg Round.phase Hand.round_withBet).trans Round.phase_raiseOrCall
  deck := Hand.deck_withBet
  able q hq := ((Hand.mem_ableToAct_withBet hdealt).mp hq).1
  closed := by
    rw [Hand.closed, events_wagered stack, List.filterMap_append]
    cases allIn <;> exact List.append_nil _

/-- Whose turn it is makes no difference to what a change comes to. -/
theorem Alters.turnTo {round : Round} {mid : Spot} (h : s.Alters mid round) (i : Nat) :
    s.Alters (mid.mapHand (·.turnTo i)) round where
  moves := h.moves.trans (.of_silent rfl (List.Subset.refl _) rfl)
  round := h.round
  phase := h.phase
  deck := h.deck
  able := h.able
  closed := h.closed

theorem Acts.alters {plan : Plan} {news : List GameEvent} {mid : Spot}
    (h : s.Acts plan news mid) : s.Alters mid (roundAfter s.hand plan) := by
  cases h with
  | check p i =>
      have hchecked : s.Alters (s.checked p) (s.hand.round.settleAction p) :=
        { moves := .of_event rfl (List.Subset.refl _) rfl rfl
          round := rfl
          phase := rfl
          deck := rfl
          able := List.Subset.refl _
          closed := (Hand.closed_emit ..).trans (List.append_nil _) }
      exact hchecked.turnTo i
  | commit a allIn i hin hdealt hstack hle => exact (wagered_alters hin hdealt hstack hle).turnTo i
  | fold p i hdealt => exact withFold_alters i

/-- Whoever owes nothing can check. -/
theorem carryOut_check (hs : s.hand.Steady s.roster) (hfit : s.Fits p (.check p)) :
    ∃ news mid, s.carryOut (.check p) = mid.done ∧ s.Acts (.check p) news mid ∧
      mid.hand.Steady mid.roster := by
  have hsteady : (s.checked p).hand.Steady (s.checked p).roster := (hs.settleAction hfit.2).emit
  obtain ⟨i, hpassed, hi⟩ := turnPassed_eq (Nat.zero_lt_of_lt hsteady.places.pointer)
  exact ⟨_, _, hpassed, .check p i, hsteady.turnTo hi⟩

/-- Whoever has the chips can put them in. -/
theorem carryOut_commit (hs : s.hand.Steady s.roster) (hturn : p ∈ s.hand.turns.order)
    (hfit : s.Fits p (.commit p a chips allIn)) :
    ∃ news mid, s.carryOut (.commit p a chips allIn) = mid.done ∧
      s.Acts (.commit p a chips allIn) news mid ∧ mid.hand.Steady mid.roster := by
  obtain ⟨-, stack, hstack, hle, hall, hmatch⟩ := hfit
  have hin := hs.places.turns_subset hturn
  have hsteady : (s.wagered p a chips stack allIn).hand.Steady
      (s.wagered p a chips stack allIn).roster :=
    (hs.raiseOrCall hturn hstack hle hall hmatch).emit.emit
  obtain ⟨i, hpassed, hi⟩ := turnPassed_eq (Nat.zero_lt_of_lt hsteady.places.pointer)
  have hcover : (s.roster.stack? p).filter (chips ≤ ·) = some stack := by
    rw [hstack, Option.filter_some, if_pos (decide_eq_true hle)]
  refine ⟨_, _, ?_, .commit a allIn i hin (hs.places.dealt p hin) hstack hle, hsteady.turnTo hi⟩
  rw [← hpassed]
  simp only [carryOut, hcover]
  cases allIn <;> rfl

/-- Folding somebody takes them out of the turns and leaves the turn of anybody else. -/
theorem foldOut_eq (hdealt : s.hand.isDealtIn p = true) (hn : s.hand.turns.order.Nodup)
    (hp : p ∈ s.hand.turns.order) :
    ∃ i, s.foldOut p = done (s.mapHand (·.withFold p i)) ∧
      (1 < s.hand.turns.order.length → i < (s.hand.withFold p i).turns.order.length) ∧
      ∀ q, s.hand.turns.now = .ok q → q ≠ p → (s.hand.withFold p i).turns.now = .ok q := by
  obtain ⟨i, hremove, hi, hnow⟩ := TurnOrder.remove_of_mem hn hp
  refine ⟨i, ?_, hi, hnow⟩
  rw [foldOut, if_pos hdealt]
  simp only [mapHand, Hand.markFolded, hremove]
  rfl

theorem carryOut_fold (ha : s.hand.Awake s.roster) (hp : p ∈ s.hand.turns.order) :
    ∃ news mid, s.carryOut (.fold p) = mid.done ∧ s.Acts (.fold p) news mid ∧
      mid.hand.Steady mid.roster := by
  have hdealt := ha.places.dealt p (ha.places.turns_subset hp)
  obtain ⟨i, hfold, hi, -⟩ := foldOut_eq hdealt ha.places.turns_nodup hp
  exact ⟨_, _, hfold, .fold p i hdealt, ha.toSteady.withFold hdealt (hi ha.contested)⟩

/-- A plan that fits a hand can be carried out, and leaves it in order. -/
theorem carryOut_spec {plan : Plan} (ha : s.hand.Awake s.roster) (hturn : p ∈ s.hand.turns.order)
    (hfit : s.Fits p plan) :
    ∃ news mid, s.carryOut plan = mid.done ∧ s.Acts plan news mid ∧
      mid.hand.Steady mid.roster := by
  cases plan with
  | check q =>
      obtain rfl : q = p := hfit.1
      exact carryOut_check ha.toSteady hfit
  | commit q a chips allIn =>
      obtain rfl : q = p := hfit.1
      exact carryOut_commit ha.toSteady hturn hfit
  | fold q =>
      obtain rfl : q = p := hfit
      exact carryOut_fold ha hturn

/-- A live hand goes on with any plan that fits it. -/
theorem apply_spec {plan : Plan} (hl : s.hand.Live s.roster) (hturn : p ∈ s.hand.turns.order)
    (hfit : s.Fits p plan) : s.Proceeds (s.apply plan) := by
  obtain ⟨news, mid, hcarry, hacts, hsteady⟩ := carryOut_spec hl.toAwake hturn hfit
  rw [apply_eq, hcarry]
  exact (advance_spec hsteady (hacts.alters.stocked hl.stocked)).after hacts.alters.moves

theorem act_eq_apply {plan : Plan} (h : s.validate p a = .ok plan) : s.act p a = s.apply plan := by
  rw [act, h]

theorem act_eq_fail {e : ActionError} (h : s.validate p a = .error e) : s.act p a = s.fail e := by
  rw [act, h]

/-- An accepted action is one of a player with a turn, and its plan fits. -/
theorem fits_of_accepted {plan : Plan} (ha : s.hand.Awake s.roster)
    (h : s.validate p a = .ok plan) : p ∈ s.hand.turns.order ∧ s.Fits p plan := by
  obtain ⟨hcur, stack, hstack, hplan⟩ := validate_ok h
  exact ⟨ha.mem_turns_of_current hcur, planFor_fits ha.bets hstack hplan⟩

/-- A live hand goes on with every action that is accepted. -/
theorem act_of_accepted {plan : Plan} (hl : s.hand.Live s.roster)
    (h : s.validate p a = .ok plan) : s.Proceeds (s.act p a) := by
  obtain ⟨hturn, hfit⟩ := fits_of_accepted hl.toAwake h
  rw [act_eq_apply h]
  exact apply_spec hl hturn hfit

/-- An action in a live hand goes through, or it is refused as a mistake and nothing changes. -/
theorem act_spec (hl : s.hand.Live s.roster) :
    s.Proceeds (s.act p a) ∨ ∃ e, s.act p a = s.fail e ∧ e.isInternal = false := by
  cases hv : s.validate p a with
  | error e => exact .inr ⟨e, act_eq_fail hv, validate_error hv⟩
  | ok plan => exact .inl (act_of_accepted hl hv)

theorem validate_of_over (h : s.hand.isOver = true) :
    s.validate p a = .error (.wrongPhase s.hand.phase) := by
  have hphase : s.hand.phase.isBetting = false := by
    rw [Hand.phase, of_decide_eq_true h]
    rfl
  rw [validate, hphase]
  rfl

theorem act_of_over (h : s.hand.isOver = true) :
    s.act p a = s.fail (.wrongPhase s.hand.phase) :=
  act_eq_fail (validate_of_over h)

/-! ## Leaving -/

theorem strikeOff_eq (s : Spot) (p : PlayerId) (place : Nat) :
    ∃ next, next = s.hand.buttonWithout p ∧
      s.strikeOff p ⟨s.hand.dealtIn.order.filter (· ≠ p), place⟩ =
        s.mapHand (·.strike s.roster p place next s.hand.firstToAct) :=
  ⟨_, rfl, rfl⟩

/-- Only who would open a street is changed before a leaver is folded. -/
theorem foldedOut_eq (s : Spot) (p : PlayerId) : ∃ first, ∀ t : Spot,
    (s.mapHand fun h => { h with firstToAct := first }).foldOut p = t.done →
      s.foldedOut p = (t.done, decide (s.hand.currentPlayer = some p ∨
        t.hand.turns.size ≤ 1 ∨ t.hand.bettingIsOver = true)) := by
  by_cases hfirst : s.hand.firstToAct = p
  · refine ⟨(s.hand.turns.nextTo p).toOption.getD s.hand.firstToAct, fun t ht => ?_⟩
    simp only [mapHand, done] at ht
    simp only [foldedOut, mapHand, if_pos hfirst, ht, done]
  · refine ⟨s.hand.firstToAct, fun t ht => ?_⟩
    simp only [mapHand, done] at ht
    simp only [foldedOut, mapHand, if_neg hfirst, ht, done]

/-- What the departure of a player does by itself, and what is told of it. Whoever has folded is
struck off without a word. -/
inductive Departs (s : Spot) (p : PlayerId) : List GameEvent → Spot → Prop
  | absent : p ∉ s.hand.dealtIn.order → Departs s p [] s
  | folded (place : Nat) (next : PlayerId) :
      p ∈ s.hand.dealtIn.order → p ∉ s.hand.turns.order →
      Departs s p [] (s.mapHand (·.strike s.roster p place next s.hand.firstToAct))
  | standing (i place : Nat) (next first : PlayerId) :
      p ∈ s.hand.turns.order → s.hand.isDealtIn p = true →
      Departs s p [.playerFolded p]
        (s.mapHand fun h => (h.withFold p i).strike s.roster p place next first)

namespace Departs
variable {news : List GameEvent} {mid : Spot}

theorem out (h : s.Departs p news mid) : p ∉ mid.hand.dealtIn.order := by
  cases h with
  | absent hout => exact hout
  | folded | standing => exact Hand.not_mem_strike

theorem roster (h : s.Departs p news mid) : mid.roster = s.roster := by
  cases h <;> rfl

theorem alters (h : s.Departs p news mid) :
    s.Alters mid s.hand.round ∨ s.Alters mid (s.hand.round.settleAction p) := by
  cases h with
  | absent => exact .inl ⟨Moves.refl, rfl, rfl, rfl, List.Subset.refl _, rfl⟩
  | folded place next =>
      have hmoves : s.Moves (s.mapHand (·.strike s.roster p place next s.hand.firstToAct)) :=
        .of_silent rfl List.filter_sublist.subset rfl
      exact .inl ⟨hmoves, rfl, rfl, rfl, List.Subset.refl _, rfl⟩
  | standing i place next first =>
      have hfolded := withFold_alters (s := s) (p := p) i
      exact .inr { hfolded with moves := .of_event rfl List.filter_sublist.subset rfl rfl }

end Departs

/-- How a hand is left when a player departs. If it is not to move on after that, it waits
for whom it waited before. -/
structure TakesOut (s : Spot) (p : PlayerId) (mid : Spot) (goesOn : Bool) : Prop where
  departs : ∃ news, s.Departs p news mid
  steady : mid.hand.Steady mid.roster
  waits : goesOn = false →
    mid.hand.Awake mid.roster ∧ mid.hand.currentPlayer = s.hand.currentPlayer
  without : s.hand.Without mid.hand p

/-- Somebody standing who was struck off can be folded. -/
theorem foldedOut_spec {next : PlayerId} (place : Nat) (hnext : next = s.hand.buttonWithout p)
    (ha : s.hand.Awake s.roster)
    (hp : p ∈ s.hand.turns.order) :
    ∃ mid goesOn, (s.mapHand (·.strike s.roster p place next s.hand.firstToAct)).foldedOut p =
      (mid.done, goesOn) ∧ s.TakesOut p mid goesOn := by
  have hin := ha.places.turns_subset hp
  have hdealt := ha.places.dealt p hin
  obtain ⟨first, hleaver⟩ :=
    foldedOut_eq (s.mapHand (·.strike s.roster p place next s.hand.firstToAct)) p
  obtain ⟨i, hfold, hi, hnow⟩ :=
    foldOut_eq (s := s.mapHand (·.strike s.roster p place next first)) (p := p) hdealt
      ha.places.turns_nodup hp
  -- Striking off and folding touch different parts of a hand, so they may change places.
  let mid := s.mapHand fun h => (h.withFold p i).strike s.roster p place next first
  have hsteady : mid.hand.Steady mid.roster :=
    (ha.toSteady.withFold hdealt (hi ha.contested)).strike
      (by rw [Hand.isFolded_withFold hdealt, decide_eq_true rfl]; rfl) hin
  refine ⟨mid, _, hleaver mid hfold,
    ⟨⟨_, .standing i place next first hp hdealt⟩, hsteady, fun hstay => ?_,
      ⟨rfl, hnext.trans (if_pos hin).symm⟩⟩⟩
  obtain ⟨hcur, hrest⟩ := not_or.mp (of_decide_eq_false hstay)
  obtain ⟨hsize, -⟩ := not_or.mp hrest
  obtain ⟨q, howes, hturn, hq⟩ := ha.currentPlayer
  have hne : q ≠ p := fun h => hcur (h ▸ hq)
  have howes' : q ∈ mid.hand.round.pending := NatSet.mem_erase.mpr ⟨howes, hne⟩
  refine ⟨{ hsteady with contested := Nat.lt_of_not_le hsize, waits := ?_ }, ?_⟩
  · exact ⟨q, howes', hnow q hturn hne⟩
  · rw [hq]
    exact Hand.currentPlayer_eq hsteady.betting howes' (hnow q hturn hne)

/-- Somebody who has folded and is struck off leaves the hand waiting for whom it waited. -/
theorem strike_awake (place : Nat) (next : PlayerId) (ha : s.hand.Awake s.roster)
    (hin : p ∈ s.hand.dealtIn.order) (hp : p ∉ s.hand.turns.order) :
    (s.hand.strike s.roster p place next s.hand.firstToAct).Awake s.roster := by
  have hfold : s.hand.isFolded p = true := by
    refine Classical.byContradiction fun h => hp (ha.places.mem_turns.mpr ⟨hin, ?_⟩)
    exact Bool.eq_false_iff.mpr h
  exact { ha.toSteady.strike hfold hin with contested := ha.contested, waits := ha.waits }

/-- Anybody can leave. -/
theorem takeOut_spec (ha : s.hand.Awake s.roster) (p : PlayerId) :
    ∃ mid goesOn, s.takeOut p = (mid.done, goesOn) ∧ s.TakesOut p mid goesOn := by
  unfold takeOut
  rw [if_neg (by rw [ha.not_over]; exact Bool.false_ne_true)]
  by_cases hin : p ∈ s.hand.dealtIn.order
  · obtain ⟨place, hremove, -⟩ := TurnOrder.remove_of_mem ha.places.nodup hin
    obtain ⟨next, hnext, hstrike⟩ := strikeOff_eq s p place
    have hsame : (s.mapHand (·.strike s.roster p place next s.hand.firstToAct)).hand.turns =
        s.hand.turns := rfl
    simp only [hremove, hstrike, hsame]
    by_cases hturn : p ∈ s.hand.turns.order
    · obtain ⟨mid, goesOn, hfolded, htakes⟩ := foldedOut_spec place hnext ha hturn
      have hheld : s.hand.turns.contains p = true := List.contains_iff_mem.mpr hturn
      exact ⟨mid, goesOn, by rw [if_pos hheld, hfolded], htakes⟩
    · have hgone : s.hand.turns.contains p = false :=
        Bool.eq_false_iff.mpr fun h => hturn (List.contains_iff_mem.mp h)
      have hawake := strike_awake place next ha hin hturn
      exact ⟨_, false, by rw [hgone]; rfl,
        ⟨⟨[], .folded place next hin hturn⟩, hawake.toSteady, fun _ => ⟨hawake, rfl⟩,
          ⟨rfl, hnext.trans (if_pos hin).symm⟩⟩⟩
  · have hremove : s.hand.dealtIn.remove p = .error (.notFound p) := by
      rw [TurnOrder.remove, TurnOrder.place_of_not_mem hin]
      rfl
    simp only [hremove]
    have hall : s.hand.dealtIn.order.filter (· ≠ p) = s.hand.dealtIn.order :=
      List.filter_eq_self.mpr fun q hq => decide_eq_true (ne_of_mem_of_not_mem hq hin)
    exact ⟨s, false, rfl, ⟨⟨[], .absent hin⟩, ha.toSteady, fun _ => ⟨ha, rfl⟩,
      ⟨hall.symm, (if_neg hin).symm⟩⟩⟩

/-- Whoever leaves a live hand is taken out of it with their stack as it is, and the hand goes on
without them. -/
theorem removePlayer_spec (hl : s.hand.Live s.roster) (p : PlayerId) :
    ∃ s', s.removePlayer p = s'.done ∧ s.Moves s' ∧
      (s'.hand.Live s'.roster ∨ s'.hand.Settled s'.roster) ∧
      p ∉ s'.hand.dealtIn.order ∧ s'.roster.get? p = s.roster.get? p := by
  obtain ⟨mid, goesOn, htakeOut, ⟨news, hdeparts⟩, hsteady, hwaits⟩ := takeOut_spec hl.toAwake p
  have hmid : s.Moves mid := hdeparts.alters.elim (·.moves) (·.moves)
  have hst : mid.hand.Stocked :=
    hdeparts.alters.elim (·.stocked hl.stocked) (·.stocked hl.stocked)
  rw [removePlayer_goesOn, htakeOut]
  cases goesOn with
  | false =>
      have hlive : mid.hand.Live mid.roster := { (hwaits rfl).1 with stocked := hst }
      exact ⟨mid, rfl, hmid, .inl hlive, hdeparts.out, by rw [hdeparts.roster]⟩
  | true =>
      obtain ⟨s', hs', hmoves, hend⟩ := advance_spec hsteady hst
      refine ⟨s', hs', hmid.trans hmoves, hend, fun h => hdeparts.out (hmoves.remain h), ?_⟩
      rw [hmoves.restacked.get?_eq hdeparts.out, hdeparts.roster]

theorem removePlayer_of_over (h : s.hand.isOver = true) : s.removePlayer p = s.done := by
  rw [removePlayer, if_pos h]

end Spot
end Holdem
