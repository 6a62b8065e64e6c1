import Holdem.Proofs.Hand.Closings
import Holdem.Proofs.Hand.Course
import Holdem.Proofs.Hand.Overflow

/-!
# Counting chips never fails while a hand is played

At every point of a hand the chips at the table and in the middle can be counted together, and so
can those of the hand with what left it. Nobody has bet more than the highest bet. That is enough
for every sum and difference on the way to exist: a hand played with words is the hand itself,
through every action and departure, and also where a deck that is too short stops it.
-/
namespace Holdem

namespace Spot

section Credit
variable {r : Roster} {winnings : List (PlayerId × Chips)} {ids : List PlayerId} {p : PlayerId}

theorem credit?_eq (hv : r.Valid) (h : r.totalChips + (winnings.map Prod.snd).sum ≤ maxChips) :
    credit? r winnings = some (credit r winnings) := by
  refine foldlM_counted Roster.Valid Roster.totalChips Prod.snd (fun r e hv hle => ?_) hv h
  have hstack : (r.stack? e.1).getD 0 ≤ r.totalChips := by
    cases hp : r.stack? e.1 with
    | none => exact Nat.zero_le _
    | some c => exact Roster.stack_le_totalChips hv hp
  refine ⟨by rw [sum?_eq (Nat.le_trans (Nat.add_le_add_right hstack _) hle)]; rfl, hv.setStack, ?_⟩
  exact totalChips_credit_le [e] hv

theorem stack?_of_vacate {c : Chips} {q : PlayerId} (hv : r.Valid)
    (h : (Table.vacate r p).stack? q = some c) : r.stack? q = some c := by
  unfold Table.vacate at h
  split at h
  · next hremove =>
      obtain ⟨-, hv', -, -, hperm⟩ := Roster.remove_spec hv hremove
      obtain ⟨x, hx, rfl⟩ := Option.map_eq_some_iff.mp h
      obtain ⟨hmem, rfl⟩ := (Roster.get?_eq_some_iff hv').mp hx
      exact Roster.stack?_of_mem hv (hperm.mem_iff.mpr (List.mem_cons_of_mem _ hmem))
  · exact h

theorem totalChips_vacate_le (hv : r.Valid) : (Table.vacate r p).totalChips ≤ r.totalChips := by
  unfold Table.vacate
  split
  · next hremove =>
      rw [Roster.totalChips_of_perm_cons (Roster.remove_spec hv hremove).2.2.2.2]
      exact Nat.le_add_left _ _
  · exact Nat.le_refl _

end Credit

/-! ## Solvent spots -/

/-- Why counting chips cannot fail. Bets are kept under the highest, all chips at the table and in
the middle can be counted together, and so can those of the hand with what left it. -/
structure Solvent (s : Spot) : Prop where
  valid : s.roster.Valid
  nodup : s.hand.dealtIn.order.Nodup
  standing : s.hand.turns.order.Nodup
  within : s.hand.turns.order ⊆ s.hand.dealtIn.order
  dealt : ∀ p ∈ s.hand.turns.order, s.hand.isDealtIn p = true
  highest : ∀ p, s.hand.round.contribution p ≤ s.hand.round.highestBet
  seats : s.roster.totalChips + s.hand.potTotal ≤ maxChips
  places : s.roster.chipsOf s.hand.dealtIn.order + s.hand.potTotal + s.hand.departedChips ≤ maxChips

/-- A step with words comes to the same as the step itself, and leaves the spot solvent. -/
structure Agrees (run : Option Outcome) (o : Outcome) : Prop where
  same : run = some o
  solvent : o.1.Solvent

variable {s : Spot} {p : PlayerId} {chips : Chips}

/-- Whose turn it is does not matter to what can be counted. -/
theorem Solvent.turned {t : TurnOrder} (hs : s.Solvent) (ht : t.order = s.hand.turns.order) :
    (s.mapHand fun h => { h with turns := t }).Solvent :=
  { hs with
    standing := ht ▸ hs.standing
    within := ht ▸ hs.within
    dealt := ht ▸ hs.dealt }

/-- Neither does what is told. -/
theorem Solvent.emit (hs : s.Solvent) (e : GameEvent) : (s.mapHand fun h => h.emit e).Solvent :=
  { hs with }

theorem Solvent.potTotal_le (hs : s.Solvent) : s.hand.potTotal ≤ maxChips :=
  Nat.le_trans (Nat.le_add_left _ _) hs.seats

theorem Solvent.stakes_le (hs : s.Solvent) : s.hand.stakes.total ≤ maxChips :=
  Nat.le_trans (Nat.le_add_right _ _) hs.potTotal_le

theorem Solvent.bets_le (hs : s.Solvent) : s.hand.round.total ≤ maxChips :=
  Nat.le_trans (Nat.le_add_left _ _) hs.potTotal_le

theorem Solvent.potTotal?_eq (hs : s.Solvent) : s.hand.potTotal? = some s.hand.potTotal := by
  rw [Hand.potTotal?, Stakes.total?_eq hs.stakes_le, Round.total?,
    NatMap.totalChips?_eq hs.bets_le]
  exact sum?_eq hs.potTotal_le

theorem Solvent.pots?_eq (hs : s.Solvent) : s.hand.stakes.pots? = some s.hand.pots :=
  Stakes.pots?_eq hs.stakes_le

theorem Solvent.emitPot?_eq (hs : s.Solvent) : s.hand.emitPot? = some s.hand.emitPot := by
  rw [Hand.emitPot?, hs.potTotal?_eq, hs.pots?_eq]
  rfl

theorem Solvent.toCall?_eq (hs : s.Solvent) (p : PlayerId) :
    s.hand.round.toCall? p = some (s.hand.round.toCall p) :=
  diff?_eq (hs.highest p)

theorem Solvent.bet_le (hs : s.Solvent) (p : PlayerId) :
    s.hand.round.contribution p ≤ maxChips :=
  Nat.le_trans NatMap.chips_le_totalChips hs.bets_le

/-- Nothing is cut off when the chips in play are counted. -/
theorem Solvent.chipsInPlay?_eq (hs : s.Solvent) : s.chipsInPlay? = some s.chipsInPlay := by
  let behind := s.hand.dealtIn.order.filterMap s.roster.stack?
  have hplaces : behind.sum + s.hand.potTotal + s.hand.departedChips ≤ maxChips := hs.places
  have hbehind : behind.foldl cappedAdd 0 = behind.sum := by
    rw [Hand.foldl_cappedAdd _ _ (by lia), Nat.zero_add]
  have hexact : s.chipsInPlay = behind.sum + s.hand.potTotal + s.hand.departedChips := by
    rw [chipsInPlay, show (s.hand.dealtIn.order.filterMap s.roster.stack?).foldl cappedAdd 0 =
      behind.sum from hbehind]
    unfold cappedAdd
    lia
  have hsum : behind.sum + s.hand.potTotal ≤ maxChips := Nat.le_trans (Nat.le_add_right _ _) hplaces
  rw [hexact, chipsInPlay?, total?_eq (Nat.le_trans (Nat.le_add_right _ _) hsum),
    hs.potTotal?_eq]
  simp only [Option.bind_eq_bind, Option.bind_some]
  rw [sum?_eq hsum, Option.bind_some, sum?_eq hplaces]

/-! ## Collecting and paying out -/

theorem mapHand?_eq {f? : Hand → Option Hand} {f : Hand → Hand}
    (h : f? s.hand = some (f s.hand)) : s.mapHand? f? = some (s.mapHand f) := by
  rw [mapHand?, h]
  rfl

theorem Solvent.collectRound?_eq (hs : s.Solvent) :
    s.mapHand? Hand.collectRound? = some (s.mapHand Hand.collectRound) := by
  apply mapHand?_eq
  rw [Hand.collectRound?, foldlM_counted (fun _ => True) Stakes.total Prod.snd
    (f := fun s e => s.contribute e.1 e.2) ?step trivial hs.potTotal_le]
  case step =>
    exact fun m e _ hle =>
      ⟨Stakes.contribute?_eq hle, trivial, Nat.le_of_eq Stakes.total_contribute⟩
  rfl

theorem Solvent.collectRound (hs : s.Solvent) : (s.mapHand Hand.collectRound).Solvent :=
  { hs with
    highest := fun p => Nat.zero_le _
    seats := by
      show s.roster.totalChips + s.hand.collectRound.potTotal ≤ maxChips
      rw [Hand.potTotal_collectRound]
      exact hs.seats
    places := by
      show s.roster.chipsOf _ + s.hand.collectRound.potTotal + _ ≤ maxChips
      rw [Hand.potTotal_collectRound]
      exact hs.places }

/-- No more can be paid out than what was collected. -/
theorem Solvent.settle_agrees {payouts : Payouts} (hs : s.Solvent)
    (h : payouts.totalChips ≤ s.hand.stakes.total) (shown : NatMap ShownHand) :
    Agrees (s.settle? payouts shown) (s.settle payouts shown) := by
  have hpot : s.hand.potTotal = s.hand.stakes.total + s.hand.round.total := rfl
  have hseats := hs.seats
  have hplaces := hs.places
  have hpaid := totalChips_credit_le payouts.entries hs.valid
  have hpaid' := chipsOf_credit_le s.roster payouts.entries hs.nodup
  change _ ≤ _ + payouts.totalChips at hpaid hpaid'
  unfold settle? settle
  cases payouts.keys.find? fun p => !s.roster.contains p with
  | some p => exact ⟨rfl, hs⟩
  | none =>
      have hfits : s.roster.totalChips + payouts.totalChips ≤ maxChips := by lia
      refine ⟨by rw [credit?_eq hs.valid hfits]; rfl, ?_⟩
      exact
        { hs with
          valid := credit_restacks.valid hs.valid
          seats := by
            show (credit s.roster payouts.entries).totalChips + (0 + s.hand.round.total) ≤ maxChips
            lia
          places := by
            show (credit s.roster payouts.entries).chipsOf s.hand.dealtIn.order +
              (0 + s.hand.round.total) + s.hand.departedChips ≤ maxChips
            lia }

theorem Solvent.showdown_agrees (hs : s.Solvent) : Agrees s.showdown? s.showdown := by
  obtain ⟨evaluator, shown, hshow, -⟩ := showHands_spec hs.dealt
  have hs' : ({ s with evaluator } : Spot).Solvent := { hs with }
  simp only [showdown?, showdown, hshow]
  rw [Stakes.distribute?_eq hs.stakes_le]
  simp only [Option.bind_eq_bind, Option.bind_some]
  cases hdistribute : s.hand.stakes.distribute
      (.ofList (shown.entries.map fun e => (e.1, e.2.value))) s.hand.order with
  | error e => exact ⟨rfl, hs'⟩
  | ok payouts => exact hs'.settle_agrees (Stakes.totalChips_distribute_le hdistribute) shown

theorem Solvent.finishUncontested_agrees (hs : s.Solvent) :
    Agrees s.finishUncontested? s.finishUncontested := by
  unfold finishUncontested? finishUncontested
  cases s.hand.turns.now with
  | error e => exact ⟨rfl, hs⟩
  | ok winner =>
      simp only [hs.collectRound?_eq, Stakes.awardAll?_eq hs.collectRound.stakes_le,
        Option.bind_eq_bind, Option.bind_some]
      exact hs.collectRound.settle_agrees (Nat.le_of_eq Stakes.totalChips_awardAll) ∅

/-! ## Moving forward -/

theorem Solvent.prompt_agrees (hs : s.Solvent) : Agrees s.prompt? s.prompt := by
  unfold prompt? prompt
  dsimp only
  cases s.hand.turns.lap.find? s.hand.round.owesAction with
  | none => exact ⟨rfl, hs⟩
  | some p =>
      dsimp only
      cases hturn : s.hand.turns.setCurrent p with
      | error e => exact ⟨rfl, hs⟩
      | ok turns =>
          refine ⟨by rw [hs.toCall?_eq]; rfl, ?_⟩
          exact (hs.turned (TurnOrder.order_setCurrent hturn)).emit _

/-- A street is opened without bets, whatever became of those before it. -/
theorem Solvent.openStreet (hs : s.Solvent) (phase : Phase) :
    (s.mapHand fun h => Spot.openStreet h phase).Solvent := by
  have hpot : s.hand.stakes.total ≤ s.hand.potTotal := Nat.le_add_right _ _
  have hseats := hs.seats
  have hplaces := hs.places
  have hopened : ∀ round : Round, round.contributions = ∅ → ∀ (first : PlayerId) (t : TurnOrder),
      t.order = s.hand.turns.order →
        Solvent { s with hand := { s.hand with round, firstToAct := first, turns := t } } :=
    fun round hround first t ht =>
      { hs.turned ht with
        highest := fun p => by
          show round.contributions.chips p ≤ _
          rw [hround]
          exact Nat.zero_le _
        seats := by
          show _ + (s.hand.stakes.total + round.contributions.totalChips) ≤ maxChips
          rw [hround, NatMap.totalChips_empty]
          lia
        places := by
          show _ + (s.hand.stakes.total + round.contributions.totalChips) + _ ≤ maxChips
          rw [hround, NatMap.totalChips_empty]
          lia }
  unfold mapHand Spot.openStreet
  dsimp only
  split
  · exact hopened _ rfl _ _ rfl
  · exact hopened _ rfl _ _ (TurnOrder.order_turnedTo _ _)

theorem Solvent.dealStreet (hs : s.Solvent) (phase : Phase) (count : Nat) :
    (s.dealStreet phase count).1.Solvent := by
  unfold Spot.dealStreet
  dsimp only
  split
  · exact { hs with }
  · let board := s.hand.board ++ (s.hand.deck.drawUpTo count).1
    have hdrawn : ({ s with hand := { s.hand with
        deck := (s.hand.deck.drawUpTo count).2, board } } : Spot).Solvent := { hs with }
    exact { hdrawn.openStreet phase with }

theorem Solvent.advanceThrough_agrees (hs : s.Solvent) (streets : List (Phase × Nat)) :
    Agrees (advanceThrough? streets s) (advanceThrough streets s) := by
  induction streets generalizing s with
  | nil =>
      unfold advanceThrough? advanceThrough
      split
      · exact hs.finishUncontested_agrees
      · split
        · exact hs.prompt_agrees
        · simp only [hs.collectRound?_eq, Option.bind_eq_bind, Option.bind_some]
          exact hs.collectRound.showdown_agrees
  | cons street later ih =>
      unfold advanceThrough? advanceThrough
      split
      · exact hs.finishUncontested_agrees
      · split
        · exact hs.prompt_agrees
        · obtain ⟨phase, count⟩ := street
          have hdealt := hs.collectRound.dealStreet phase count
          simp only [hs.collectRound?_eq, Option.bind_eq_bind, Option.bind_some]
          generalize (s.mapHand Hand.collectRound).dealStreet phase count = o at hdealt
          obtain ⟨t, e | ⟨⟩⟩ := o
          · exact ⟨rfl, hdealt⟩
          · exact ih hdealt

theorem Solvent.advance_agrees (hs : s.Solvent) : Agrees s.advance? s.advance :=
  hs.advanceThrough_agrees _

/-! ## Actions -/

section Validate
variable {a : Action} {stack : Chips} {plan : Plan}

/-- The least raise may have been capped, but nobody has bet more than that. -/
theorem Solvent.sizingPlan?_eq (hs : s.Solvent) (amount : Chips) :
    s.sizingPlan? p a amount stack = some (s.sizingPlan p a amount stack) := by
  have hhighest := hs.highest p
  have hcount := hs.bet_le p
  simp only [sizingPlan?, sizingPlan]
  split
  · rfl
  · next hmin =>
      rw [diff?_eq (by unfold Round.minRaiseTo cappedAdd at hmin; lia)]
      simp only [Option.bind_eq_bind, Option.bind_some]
      split <;> rfl

theorem Solvent.planFor?_eq (hs : s.Solvent) (stack : Chips) :
    s.planFor? p stack a = some (s.planFor p stack a) := by
  rw [planFor?, hs.toCall?_eq]
  cases a with
  | check | call | fold | allIn => rfl
  | bet amount | raise amount =>
      simp only [Option.bind_eq_bind, Option.bind_some, planFor]
      split
      · rfl
      · exact hs.sizingPlan?_eq amount

theorem Solvent.validate?_eq (hs : s.Solvent) (p : PlayerId) (a : Action) :
    s.validate? p a = some (s.validate p a) := by
  unfold validate? validate
  split
  · rfl
  · split
    · rfl
    · split
      · rfl
      · cases s.roster.stack? p with
        | none => rfl
        | some stack => exact hs.planFor?_eq stack

theorem player_of_sizingPlan {amount : Chips} (h : s.sizingPlan p a amount stack = .ok plan) :
    plan.player = p := by
  simp only [sizingPlan] at h
  split at h
  · cases h
  · split at h
    · cases h
    · cases h
      rfl

theorem player_of_planFor (h : s.planFor p stack a = .ok plan) : plan.player = p := by
  cases a with
  | check | call =>
      simp only [planFor] at h
      split at h
      · cases h
      · cases h
        rfl
  | bet amount | raise amount =>
      simp only [planFor] at h
      split at h
      · cases h
      · exact player_of_sizingPlan h
  | fold | allIn =>
      cases h
      rfl

theorem mem_turns_of_currentPlayer (h : s.hand.currentPlayer = some p) :
    p ∈ s.hand.turns.order := by
  unfold Hand.currentPlayer at h
  split at h
  · cases h
  · cases hnow : s.hand.turns.now with
    | error e => rw [hnow] at h; cases h
    | ok q =>
        rw [hnow] at h
        cases h
        exact List.mem_of_getElem? (TurnOrder.now_eq_ok_iff.mp hnow)

/-- An accepted action is planned for whoever took it, who has a turn. -/
theorem player_of_validate (h : s.validate p a = .ok plan) : plan.player ∈ s.hand.turns.order := by
  obtain ⟨hcur, stack, -, hplan⟩ := validate_ok h
  rw [player_of_planFor hplan]
  exact mem_turns_of_currentPlayer hcur

end Validate

section Bet
variable {stack : Chips} {round : Round}

theorem Solvent.commit?_eq (hs : s.Solvent) (hstack : s.roster.stack? p = some stack)
    (hle : chips ≤ stack) :
    s.hand.round.commit? p chips = some (s.hand.round.commit p chips) := by
  have hseats := hs.seats
  have hown := Roster.stack_le_totalChips hs.valid hstack
  have hbets : s.hand.round.total ≤ s.hand.potTotal := Nat.le_add_left _ _
  have hfits : s.hand.round.contributions.totalChips + chips ≤ maxChips := by
    unfold Round.total at hbets
    lia
  rw [Round.commit?, NatMap.addChips?_eq hfits]
  rfl

theorem Solvent.raiseOrCall?_eq (hs : s.Solvent) (hstack : s.roster.stack? p = some stack)
    (hle : chips ≤ stack) (able : List PlayerId) :
    s.hand.round.raiseOrCall? p chips able = some (s.hand.round.raiseOrCall p chips able) := by
  simp only [Round.raiseOrCall?, Round.raiseOrCall, hs.commit?_eq hstack hle, Option.bind_eq_bind,
    Option.bind_some]
  split
  · next hraised =>
      rw [diff?_eq (Nat.le_of_lt hraised)]
      rfl
  · rfl

/-- Chips that move from a stack to a bet are still counted where they were. -/
theorem Solvent.bet (hs : s.Solvent) (hp : p ∈ s.hand.turns.order)
    (hstack : s.roster.stack? p = some stack) (hle : chips ≤ stack)
    (hround : round.contributions = s.hand.round.contributions.addChips p chips)
    (hhighest : round.highestBet =
      max s.hand.round.highestBet (s.hand.round.contribution p + chips)) :
    Solvent { s with
      roster := s.roster.setStack p (stack - chips)
      hand := { s.hand with round } } := by
  have hin := hs.within hp
  have hseats := hs.seats
  have hplaces := hs.places
  have htotal := Roster.totalChips_setStack (c := stack - chips) hs.valid hstack
  have hchips := Roster.chipsOf_setStack (c := stack - chips) hs.nodup hin hstack
  have hpot : s.hand.stakes.total + round.total = s.hand.potTotal + chips := by
    rw [Round.total, hround, NatMap.totalChips_addChips, Hand.potTotal, Nat.add_assoc]
    rfl
  have hbet : ∀ q, round.contribution q =
      s.hand.round.contribution q + if q = p then chips else 0 := fun q => by
    rw [Round.contribution, hround]
    exact NatMap.chips_addChips
  exact
    { hs with
      valid := hs.valid.setStack
      highest := fun q => by
        show round.contribution q ≤ round.highestBet
        have hq := hs.highest q
        rw [hbet, hhighest]
        split
        · next hqp => rw [hqp]; exact Nat.le_max_right _ _
        · lia
      seats := by
        show (s.roster.setStack p (stack - chips)).totalChips +
          (s.hand.stakes.total + round.total) ≤ maxChips
        lia
      places := by
        show (s.roster.setStack p (stack - chips)).chipsOf s.hand.dealtIn.order +
          (s.hand.stakes.total + round.total) + s.hand.departedChips ≤ maxChips
        lia }

end Bet

theorem Solvent.markAllIn (hs : s.Solvent) (p : PlayerId) :
    (s.mapHand fun h => h.markAllIn p).Solvent :=
  { hs with dealt := fun q hq => Hand.isDealtIn_markAllIn.trans (hs.dealt q hq) }

theorem Solvent.passTurn_agrees (hs : s.Solvent) : Agrees s.passTurn? s.passTurn := by
  unfold passTurn? passTurn
  cases hnext : s.hand.turns.next with
  | error e => exact ⟨rfl, hs⟩
  | ok t => exact (hs.turned (TurnOrder.order_next hnext)).advance_agrees

theorem Solvent.commitChips?_eq (hs : s.Solvent) {stack : Chips}
    (hstack : s.roster.stack? p = some stack) (hle : chips ≤ stack) :
    commitChips? s.hand p chips = some (commitChips s.hand p chips) := by
  rw [commitChips?, hs.raiseOrCall?_eq hstack hle]
  rfl

theorem Solvent.commitChips (hs : s.Solvent) {stack : Chips} (hp : p ∈ s.hand.turns.order)
    (hstack : s.roster.stack? p = some stack) (hle : chips ≤ stack) :
    Solvent { s with
      roster := s.roster.setStack p (stack - chips)
      hand := Spot.commitChips s.hand p chips } :=
  hs.bet hp hstack hle Round.contributions_raiseOrCall (Round.highestBet_raiseOrCall ..)

theorem Solvent.applyCommit_agrees (hs : s.Solvent) (hp : p ∈ s.hand.turns.order) (a : Action)
    (allIn : Bool) :
    Agrees (s.applyCommit? p a chips allIn) (s.applyCommit p a chips allIn) := by
  unfold applyCommit? applyCommit
  cases hcover : (s.roster.stack? p).filter (chips ≤ ·) with
  | none => exact ⟨rfl, hs⟩
  | some stack =>
      obtain ⟨hstack, hfits⟩ := Option.filter_eq_some_iff.mp hcover
      have hle : chips ≤ stack := of_decide_eq_true hfits
      have hbet := hs.commitChips hp hstack hle
      have hmarked : ∀ allIn : Bool, Solvent { s with
          roster := s.roster.setStack p (stack - chips)
          hand :=
            if allIn then ((Spot.commitChips s.hand p chips).markAllIn p).emit (.playerAllIn p chips)
            else (Spot.commitChips s.hand p chips).emit (.playerActed p a chips) } := fun allIn => by
        cases allIn
        · exact hbet.emit _
        · exact (hbet.markAllIn p).emit _
      dsimp only
      rw [diff?_eq hle, hs.commitChips?_eq hstack hle]
      simp only [Option.bind_eq_bind, Option.bind_some]
      rw [(hmarked allIn).emitPot?_eq, Option.bind_some]
      exact ((hmarked allIn).emit _).passTurn_agrees

theorem Solvent.withFold (hs : s.Solvent) (p : PlayerId) (i : Nat) :
    (s.mapHand (·.withFold p i)).Solvent :=
  { hs with
    standing := hs.standing.filter _
    within := fun _ hq => hs.within (List.mem_filter.mp hq).1
    dealt := fun q hq =>
      Hand.isDealtIn_markFolded.trans (hs.dealt q (List.mem_filter.mp hq).1) }

theorem Solvent.apply_agrees (hs : s.Solvent) {plan : Plan}
    (hp : plan.player ∈ s.hand.turns.order) : Agrees (s.applyPlan? plan) (s.apply plan) := by
  cases plan with
  | check p =>
      have hchecked : (s.checked p).Solvent := { hs with }
      exact hchecked.passTurn_agrees
  | commit p a chips allIn => exact hs.applyCommit_agrees hp a allIn
  | fold p =>
      obtain ⟨i, hfold, -⟩ := foldOut_eq (hs.dealt p hp) hs.standing hp
      simp only [applyPlan?, apply, applyFold?, applyFold, hfold, done]
      exact (hs.withFold p i).advance_agrees

theorem Solvent.act_agrees (hs : s.Solvent) (p : PlayerId) (a : Action) :
    Agrees (s.act? p a) (s.act p a) := by
  rw [act?, act, hs.validate?_eq]
  cases hv : s.validate p a with
  | error e => exact ⟨rfl, hs⟩
  | ok plan => exact hs.apply_agrees (player_of_validate hv)

/-! ## Departures -/

/-- A stack that leaves with its player is counted as departed instead. -/
theorem Solvent.strike {place : Nat} {next first : PlayerId} (hs : s.Solvent)
    (hin : p ∈ s.hand.dealtIn.order) (hout : p ∉ s.hand.turns.order) :
    (s.mapHand (·.strike s.roster p place next first)).Solvent :=
  { hs with
    nodup := hs.nodup.filter _
    within := fun q hq => List.mem_filter.mpr
      ⟨hs.within hq, decide_eq_true (ne_of_mem_of_not_mem hq hout)⟩
    places := by
      have hplaces := hs.places
      rw [Roster.chipsOf_eq_add hs.nodup hin] at hplaces
      show s.roster.chipsOf (s.hand.dealtIn.order.filter (· ≠ p)) + s.hand.potTotal +
        (s.hand.departedChips + (s.roster.stack? p).getD 0) ≤ maxChips
      lia }

theorem Solvent.strikeOff?_eq (hs : s.Solvent) (hin : p ∈ s.hand.dealtIn.order)
    (dealtIn : TurnOrder) : s.strikeOff? p dealtIn = some (s.strikeOff p dealtIn) := by
  have hplaces := hs.places
  have hown := Roster.stack_le_chipsOf (r := s.roster) hs.nodup hin
  rw [strikeOff?, sum?_eq (by lia)]
  rfl

/-- With a leaver folded, a hand played with words moves on where the hand does. -/
theorem foldLeaver_agrees (s : Spot) (p : PlayerId) : ∃ first, ∀ t : Spot,
    (s.mapHand fun h => { h with firstToAct := first }).foldOut p = t.done → t.Solvent →
      Agrees (s.foldLeaver? p) (s.foldLeaver p) := by
  by_cases hfirst : s.hand.firstToAct = p
  · refine ⟨(s.hand.turns.nextTo p).toOption.getD s.hand.firstToAct, fun t ht hsolvent => ?_⟩
    simp only [mapHand, done] at ht
    simp only [foldLeaver?, foldLeaver, mapHand, if_pos hfirst, ht]
    split
    · exact hsolvent.advance_agrees
    · exact ⟨rfl, hsolvent⟩
  · refine ⟨s.hand.firstToAct, fun t ht hsolvent => ?_⟩
    simp only [mapHand, done] at ht
    simp only [foldLeaver?, foldLeaver, mapHand, if_neg hfirst, ht]
    split
    · exact hsolvent.advance_agrees
    · exact ⟨rfl, hsolvent⟩

theorem Solvent.removePlayer_agrees (hs : s.Solvent) (p : PlayerId) :
    Agrees (s.removePlayer? p) (s.removePlayer p) := by
  unfold removePlayer? removePlayer
  split
  · exact ⟨rfl, hs⟩
  · by_cases hin : p ∈ s.hand.dealtIn.order
    · obtain ⟨place, hremove, -⟩ := TurnOrder.remove_of_mem hs.nodup hin
      obtain ⟨next, -, hstrike⟩ := strikeOff_eq s p place
      let struck := s.mapHand (·.strike s.roster p place next s.hand.firstToAct)
      simp only [hremove, hs.strikeOff?_eq hin, hstrike, Option.bind_eq_bind, Option.bind_some]
      by_cases hp : p ∈ s.hand.turns.order
      · have hheld : struck.hand.turns.contains p = true := List.contains_iff_mem.mpr hp
        obtain ⟨first, hleaver⟩ := foldLeaver_agrees struck p
        obtain ⟨i, hfold, -⟩ := foldOut_eq
          (s := s.mapHand (·.strike s.roster p place next first)) (hs.dealt p hp) hs.standing hp
        -- Striking off and folding touch different parts of a hand, so they may change places.
        have hfolded : p ∉ (s.hand.withFold p i).turns.order := fun h =>
          of_decide_eq_true (List.mem_filter.mp h).2 rfl
        have hleft :
            (s.mapHand fun h => (h.withFold p i).strike s.roster p place next first).Solvent :=
          (hs.withFold p i).strike hin hfolded
        rw [if_pos hheld, if_pos hheld]
        exact hleaver _ hfold hleft
      · have hgone : ¬ struck.hand.turns.contains p = true := fun h =>
          hp (List.contains_iff_mem.mp h)
        rw [if_neg hgone, if_neg hgone]
        exact ⟨rfl, hs.strike hin hp⟩
    · have hremove : s.hand.dealtIn.remove p = .error (.notFound p) := by
        rw [TurnOrder.remove, TurnOrder.place_of_not_mem hin]
        rfl
      simp only [hremove]
      exact ⟨rfl, hs⟩

theorem Solvent.vacate (hs : s.Solvent) (p : PlayerId) :
    ({ s with roster := Table.vacate s.roster p } : Spot).Solvent := by
  have hchips : (Table.vacate s.roster p).chipsOf s.hand.dealtIn.order ≤
      s.roster.chipsOf s.hand.dealtIn.order :=
    Roster.chipsOf_le fun q c h => stack?_of_vacate hs.valid h
  exact
    { hs with
      valid := valid_vacate hs.valid
      seats := Nat.le_trans (Nat.add_le_add_right (totalChips_vacate_le hs.valid) _) hs.seats
      places := Nat.le_trans
        (Nat.add_le_add_right (Nat.add_le_add_right hchips _) _) hs.places }

/-! ## Runs -/

theorem Solvent.move_agrees (hs : s.Solvent) {m : Move} (hm : m.inHand = true) :
    Agrees (s.move? m) (s.move m) := by
  cases m with
  | act p a => exact hs.act_agrees p a
  | leave p =>
      have hleft := hs.removePlayer_agrees p
      simp only [move?, move, hleft.same, Option.bind_eq_bind, Option.bind_some]
      have hsolvent := hleft.solvent
      generalize s.removePlayer p = o at hsolvent
      obtain ⟨t, e | ⟨⟩⟩ := o
      · exact ⟨rfl, hsolvent⟩
      · exact ⟨rfl, hsolvent.vacate p⟩
  | sitDown p name stack wanted => cases hm

theorem Solvent.play_agrees (hs : s.Solvent) {moves : List Move}
    (hm : ∀ m ∈ moves, m.inHand = true) :
    s.play? moves = some (s.play moves) ∧ (s.play moves).Solvent := by
  induction moves generalizing s with
  | nil => exact ⟨rfl, hs⟩
  | cons m rest ih =>
      have hmove := hs.move_agrees (hm m List.mem_cons_self)
      obtain ⟨hsame, hsolvent⟩ :=
        ih hmove.solvent fun m hin => hm m (List.mem_cons_of_mem _ hin)
      refine ⟨?_, hsolvent⟩
      rw [play?, List.foldlM_cons, hmove.same]
      exact hsame

end Spot
end Holdem
