import Holdem.Proofs.Hand.Observer
import Holdem.Proofs.Hand.Solvency

/-!
# Leaving on one's turn

Whoever is waited for and leaves does the same to the hand as if they had folded and left then. On
the way out the books are kept of who is dealt in, who is to have the button and what was carried
away. A hand that moves on neither looks at these books nor writes in them, so it does not matter
whether they are kept before it moves on or afterwards. All of this also holds where a hand is
stopped because its deck is too short.
-/
namespace Holdem

/-! ## Other books -/

/-- The books that are kept when somebody leaves. -/
structure Ledger where
  dealtIn : TurnOrder
  nextDealer : PlayerId
  departedChips : Chips

/-- The same hand with other books, and another one who opens the street. -/
def Hand.rebook (h : Hand) (b : Ledger) (first : PlayerId) : Hand :=
  { h with
    dealtIn := b.dealtIn
    nextDealer := b.nextDealer
    departedChips := b.departedChips
    firstToAct := first }

namespace Spot

def rebook (s : Spot) (b : Ledger) (first : PlayerId) : Spot := s.mapHand (·.rebook b first)

/-- What a step leaves behind, with other books, and the same answer. -/
def rebooked (o : Outcome) (b : Ledger) (first : PlayerId) : Outcome := (o.1.rebook b first, o.2)

variable {s s' s'' : Spot} {b : Ledger} {first p : PlayerId}

@[simp] theorem roster_rebook : (s.rebook b first).roster = s.roster := rfl

@[simp] theorem turns_rebook : (s.rebook b first).hand.turns = s.hand.turns := rfl

@[simp] theorem round_rebook : (s.rebook b first).hand.round = s.hand.round := rfl

@[simp] theorem bettingIsOver_rebook :
    (s.rebook b first).hand.bettingIsOver = s.hand.bettingIsOver := rfl

@[simp] theorem isDealtIn_rebook :
    (s.rebook b first).hand.isDealtIn p = s.hand.isDealtIn p := rfl

@[simp] theorem pocket?_rebook : (s.rebook b first).hand.pocket? p = s.hand.pocket? p := rfl

@[simp] theorem collectRound_rebook : (s.rebook b first).mapHand Hand.collectRound =
    (s.mapHand Hand.collectRound).rebook b first := rfl

theorem settle_rebook {payouts : Payouts} {shown : NatMap ShownHand} :
    (s.rebook b first).settle payouts shown = rebooked (s.settle payouts shown) b first := by
  unfold settle
  rw [roster_rebook]
  cases payouts.keys.find? fun p => !s.roster.contains p <;> rfl

theorem finishUncontested_rebook :
    (s.rebook b first).finishUncontested = rebooked s.finishUncontested b first := by
  unfold finishUncontested
  rw [turns_rebook]
  cases s.hand.turns.now with
  | error e => rfl
  | ok winner => exact settle_rebook (s := s.mapHand Hand.collectRound)

/-- Valuing hands changes nothing but the evaluator, and does so whatever the books. -/
theorem showHandsGo_eq (players : List PlayerId) (shown : NatMap ShownHand) (s : Spot) :
    ∃ evaluator answer, showHands.go players shown s = ({ s with evaluator }, answer) ∧
      ∀ b first, showHands.go players shown (s.rebook b first) =
        (({ s with evaluator } : Spot).rebook b first, answer) := by
  induction players generalizing shown s with
  | nil => exact ⟨s.evaluator, .ok shown, rfl, fun _ _ => rfl⟩
  | cons p rest ih =>
      simp only [showHands.go, pocket?_rebook]
      cases s.hand.pocket? p with
      | none => exact ⟨s.evaluator, .error .notInHand, rfl, fun _ _ => rfl⟩
      | some pocket =>
          exact ih _ { s with evaluator := { s.evaluator with calls := s.evaluator.calls + 1 } }

theorem showdown_rebook : (s.rebook b first).showdown = rebooked s.showdown b first := by
  obtain ⟨evaluator, answer, hgo, hrebooked⟩ := showHandsGo_eq s.hand.turns.order ∅ s
  simp only [showdown, showHands, hgo]
  rw [turns_rebook, hrebooked]
  cases answer with
  | error e => rfl
  | ok shown =>
      dsimp only
      rw [show (({ s with evaluator } : Spot).rebook b first).hand.stakes = s.hand.stakes from rfl,
        show (({ s with evaluator } : Spot).rebook b first).hand.order = s.hand.order from rfl]
      cases s.hand.stakes.distribute (.ofList (shown.entries.map fun e => (e.1, e.2.value)))
        s.hand.order with
      | error e => rfl
      | ok payouts => exact settle_rebook

theorem prompt_rebook : (s.rebook b first).prompt = rebooked s.prompt b first := by
  unfold prompt
  dsimp only
  rw [turns_rebook, round_rebook]
  cases s.hand.turns.lap.find? s.hand.round.owesAction with
  | none => rfl
  | some p =>
      dsimp only
      cases s.hand.turns.setCurrent p <;> rfl

/-- On a new street it is written down anew who opens it, if there is anybody to do so. -/
theorem openStreet_rebook (h : Hand) (phase : Phase) (b : Ledger) (first : PlayerId) :
    ∃ first', openStreet (h.rebook b first) phase = (openStreet h phase).rebook b first' := by
  unfold openStreet
  rw [show (h.rebook b first).ableToAct = h.ableToAct from rfl,
    show (h.rebook b first).order = h.order from rfl,
    show (h.rebook b first).blinds = h.blinds from rfl]
  dsimp only
  split
  · exact ⟨first, rfl⟩
  · next opener _ => exact ⟨opener, rfl⟩

theorem dealStreet_rebook (s : Spot) (phase : Phase) (count : Nat) (b : Ledger)
    (first : PlayerId) : ∃ first',
      (s.rebook b first).dealStreet phase count = rebooked (s.dealStreet phase count) b first' := by
  unfold dealStreet
  rw [show (s.rebook b first).hand.deck = s.hand.deck from rfl]
  dsimp only
  split
  · exact ⟨first, rfl⟩
  · let (dealt, deck) := s.hand.deck.drawUpTo count
    let board := s.hand.board ++ dealt
    let told := GameEvent.roundAdvanced phase dealt board
    obtain ⟨first', hopen⟩ := openStreet_rebook { s.hand with deck, board } phase b first
    exact ⟨first', congrArg (fun hand => done { s with hand := hand.emit told }) hopen⟩

/-- The books make no difference to how a hand moves on. The induction is over the streets. -/
theorem advanceThrough_rebook (streets : List (Phase × Nat)) (s : Spot) (b : Ledger)
    (first : PlayerId) : ∃ first',
      advanceThrough streets (s.rebook b first) =
        rebooked (advanceThrough streets s) b first' := by
  induction streets generalizing s first with
  | nil =>
      unfold advanceThrough
      rw [turns_rebook, round_rebook, bettingIsOver_rebook]
      split
      · exact ⟨first, finishUncontested_rebook⟩
      · split
        · exact ⟨first, prompt_rebook⟩
        · exact ⟨first, showdown_rebook (s := s.mapHand Hand.collectRound)⟩
  | cons street later ih =>
      unfold advanceThrough
      rw [turns_rebook, round_rebook, bettingIsOver_rebook]
      split
      · exact ⟨first, finishUncontested_rebook⟩
      · split
        · exact ⟨first, prompt_rebook⟩
        · obtain ⟨phase, count⟩ := street
          obtain ⟨first', hdealt⟩ :=
            dealStreet_rebook (s.mapHand Hand.collectRound) phase count b first
          dsimp only
          rw [collectRound_rebook, hdealt]
          obtain ⟨t, e | ⟨⟩⟩ := (s.mapHand Hand.collectRound).dealStreet phase count
          · exact ⟨first', rfl⟩
          · exact ih t first'

theorem advance_rebook (s : Spot) (b : Ledger) (first : PlayerId) :
    ∃ first', (s.rebook b first).advance = rebooked s.advance b first' :=
  advanceThrough_rebook _ s b first

theorem foldOut_rebook : (s.rebook b first).foldOut p = rebooked (s.foldOut p) b first := by
  unfold foldOut
  rw [isDealtIn_rebook]
  split
  · simp only [mapHand, rebook, Hand.rebook, Hand.markFolded]
    cases s.hand.turns.remove p <;> rfl
  · rfl

/-! ## What moving on leaves alone -/

/-- A hand that is still played with the same players, who have what they had. -/
structure Still (s s' : Spot) : Prop where
  roster : s'.roster = s.roster
  turns : s'.hand.turns.order = s.hand.turns.order
  holdings : s'.hand.holdings = s.hand.holdings
  dealtIn : s'.hand.dealtIn = s.hand.dealtIn
  button : s'.hand.nextDealer = s.hand.nextDealer
  departed : s'.hand.departedChips = s.hand.departedChips
  betting : s'.hand.phase.isBetting = true

theorem Still.refl (hb : s.hand.phase.isBetting = true) : Still s s :=
  ⟨rfl, rfl, rfl, rfl, rfl, rfl, hb⟩

theorem Still.trans (h : Still s s') (h' : Still s' s'') : Still s s'' where
  roster := h'.roster.trans h.roster
  turns := h'.turns.trans h.turns
  holdings := h'.holdings.trans h.holdings
  dealtIn := h'.dealtIn.trans h.dealtIn
  button := h'.button.trans h.button
  departed := h'.departed.trans h.departed
  betting := h'.betting

/-- A hand that ended, or is still played as it was. -/
def Goes (s s' : Spot) : Prop := s'.hand.isOver = true ∨ Still s s'

theorem Goes.after (h : Goes s' s'') (hs : Still s s') : Goes s s'' := h.imp_right hs.trans

theorem settle_goes (hb : s.hand.phase.isBetting = true) (payouts : Payouts)
    (shown : NatMap ShownHand) : Goes s (s.settle payouts shown).1 := by
  unfold settle
  cases payouts.keys.find? fun p => !s.roster.contains p with
  | some p => exact .inr (.refl hb)
  | none => exact .inl rfl

theorem still_collectRound (hb : s.hand.phase.isBetting = true) :
    Still s (s.mapHand Hand.collectRound) :=
  ⟨rfl, rfl, rfl, rfl, rfl, rfl, hb⟩

theorem finishUncontested_goes (hb : s.hand.phase.isBetting = true) :
    Goes s s.finishUncontested.1 := by
  unfold finishUncontested
  cases s.hand.turns.now with
  | error e => exact .inr (.refl hb)
  | ok winner =>
      exact (settle_goes (s := s.mapHand Hand.collectRound) hb _ _).after (still_collectRound hb)

theorem showdown_goes (hb : s.hand.phase.isBetting = true) : Goes s s.showdown.1 := by
  obtain ⟨evaluator, answer, hgo, -⟩ := showHandsGo_eq s.hand.turns.order ∅ s
  have hstill : Still s { s with evaluator } := ⟨rfl, rfl, rfl, rfl, rfl, rfl, hb⟩
  simp only [showdown, showHands, hgo]
  cases answer with
  | error e => exact .inr hstill
  | ok shown =>
      dsimp only
      cases s.hand.stakes.distribute (.ofList (shown.entries.map fun e => (e.1, e.2.value)))
        s.hand.order with
      | error e => exact .inr hstill
      | ok payouts => exact (settle_goes hstill.betting payouts shown).after hstill

theorem prompt_still (hb : s.hand.phase.isBetting = true) : Still s s.prompt.1 := by
  unfold prompt
  dsimp only
  cases s.hand.turns.lap.find? s.hand.round.owesAction with
  | none => exact .refl hb
  | some p =>
      dsimp only
      cases hturn : s.hand.turns.setCurrent p with
      | error e => exact .refl hb
      | ok turns => exact ⟨rfl, TurnOrder.order_setCurrent hturn, rfl, rfl, rfl, rfl, hb⟩

theorem dealStreet_still {phase : Phase} (count : Nat) (hb : s.hand.phase.isBetting = true)
    (hphase : phase.isBetting = true) : Still s (s.dealStreet phase count).1 := by
  unfold dealStreet
  dsimp only
  split
  · exact ⟨rfl, rfl, rfl, rfl, rfl, rfl, hb⟩
  · unfold openStreet
    dsimp only [mapHand, done]
    split
    · exact ⟨rfl, rfl, rfl, rfl, rfl, rfl, hphase⟩
    · exact ⟨rfl, TurnOrder.order_turnedTo _ _, rfl, rfl, rfl, rfl, hphase⟩

theorem advanceThrough_goes (streets : List (Phase × Nat)) (hb : s.hand.phase.isBetting = true)
    (hstreets : ∀ street ∈ streets, street.1.isBetting = true) :
    Goes s (advanceThrough streets s).1 := by
  induction streets generalizing s with
  | nil =>
      unfold advanceThrough
      split
      · exact finishUncontested_goes hb
      · split
        · exact .inr (prompt_still hb)
        · exact (showdown_goes (s := s.mapHand Hand.collectRound) hb).after (still_collectRound hb)
  | cons street later ih =>
      unfold advanceThrough
      split
      · exact finishUncontested_goes hb
      · split
        · exact .inr (prompt_still hb)
        · obtain ⟨phase, count⟩ := street
          have hdealt := (still_collectRound hb).trans
            (dealStreet_still (s := s.mapHand Hand.collectRound) count hb
              (hstreets _ List.mem_cons_self))
          dsimp only
          generalize (s.mapHand Hand.collectRound).dealStreet phase count = o at hdealt
          obtain ⟨t, e | ⟨⟩⟩ := o
          · exact .inr hdealt
          · exact (ih hdealt.betting fun street hin =>
              hstreets street (List.mem_cons_of_mem _ hin)).after hdealt

theorem isBetting_of_mem_streets {phase : Phase} {street : Phase × Nat}
    (h : street ∈ phase.streets) : street.1.isBetting = true := by
  cases phase <;> simp only [Phase.streets, List.mem_cons, List.not_mem_nil, or_false] at h
  all_goals rcases h with rfl | rfl | rfl
  all_goals rfl

theorem advance_goes (hb : s.hand.phase.isBetting = true) : Goes s s.advance.1 :=
  advanceThrough_goes _ hb fun _ => isBetting_of_mem_streets

/-! ## Hands in which everybody who has a turn is there -/

/-- Whoever has a turn is dealt in, and whoever is dealt in is seated. This needs no more than that
nobody gets up who was not taken out, and holds also after a hand was stopped for lack of cards. -/
structure Standing (s : Spot) : Prop where
  valid : s.roster.Valid
  nodup : s.hand.dealtIn.order.Nodup
  once : s.hand.turns.order.Nodup
  within : s.hand.turns.order ⊆ s.hand.dealtIn.order
  dealt : ∀ p ∈ s.hand.turns.order, s.hand.isDealtIn p = true
  seated : ∀ p ∈ s.hand.dealtIn.order, s.roster.contains p = true
  betting : s.hand.phase.isBetting = true

/-- A hand is over, or everybody is there. -/
def Kept (s : Spot) : Prop := s.hand.isOver = true ∨ s.Standing

theorem Standing.not_over (h : s.Standing) : ¬ s.hand.isOver = true := by
  rw [Hand.isOver_eq_false_of_betting h.betting]
  exact Bool.false_ne_true

theorem Standing.still (h : s.Standing) (hs : Still s s') : s'.Standing where
  valid := hs.roster ▸ h.valid
  nodup := hs.dealtIn ▸ h.nodup
  once := hs.turns ▸ h.once
  within := by
    rw [hs.turns, hs.dealtIn]
    exact h.within
  dealt q hq := by
    rw [Hand.isDealtIn, hs.holdings]
    exact h.dealt q (hs.turns ▸ hq)
  seated q hq := by
    rw [hs.roster]
    exact h.seated q (hs.dealtIn ▸ hq)
  betting := hs.betting

theorem Standing.advance (h : s.Standing) : s.advance.1.Kept :=
  (advance_goes h.betting).imp_right h.still

theorem Standing.andThen_advance {o : Outcome} (h : o.1.Standing) :
    (andThen o Spot.advance).1.Kept := by
  obtain ⟨t, e | ⟨⟩⟩ := o
  · exact .inr h
  · exact h.advance

/-! ## Actions -/

theorem Standing.turnPassed (h : s.Standing) : s.turnPassed.1.Standing := by
  unfold Spot.turnPassed
  cases hnext : s.hand.turns.next with
  | error e => exact h
  | ok t => exact h.still ⟨rfl, TurnOrder.order_next hnext, rfl, rfl, rfl, rfl, h.betting⟩

/-- Chips go from one place to another, and everybody stays where they are. -/
theorem Standing.wager (h : s.Standing) (round : Round) (p : PlayerId) (c : Chips) (allIn : Bool)
    (hround : round.phase = s.hand.round.phase) :
    Standing { s with roster := s.roster.setStack p c, hand := s.hand.withBet p round allIn } where
  valid := h.valid.setStack
  nodup := by simpa only [Hand.dealtIn_withBet] using h.nodup
  once := by simpa only [Hand.turns_withBet] using h.once
  within := by simpa only [Hand.dealtIn_withBet, Hand.turns_withBet] using h.within
  dealt q hq := by
    simp only [Hand.turns_withBet] at hq
    exact Hand.isDealtIn_withBet.trans (h.dealt q hq)
  seated q hq := by
    simp only [Hand.dealtIn_withBet] at hq
    rw [Roster.contains_setStack]
    exact h.seated q hq
  betting := by
    simp only [Hand.phase, Hand.round_withBet, hround]
    exact h.betting

theorem Standing.withFold (h : s.Standing) (p : PlayerId) (i : Nat) :
    (s.mapHand (·.withFold p i)).Standing :=
  { h with
    once := h.once.filter _
    within := fun _ hq => h.within (List.mem_filter.mp hq).1
    dealt := fun q hq =>
      Hand.isDealtIn_markFolded.trans (h.dealt q (List.mem_filter.mp hq).1) }

theorem Standing.carryOut (h : s.Standing) {plan : Plan} (hp : plan.player ∈ s.hand.turns.order) :
    (s.carryOut plan).1.Standing := by
  cases plan with
  | check p => exact Standing.turnPassed { h with }
  | commit p a chips allIn =>
      simp only [Spot.carryOut]
      cases (s.roster.stack? p).filter (chips ≤ ·) with
      | none => exact h
      | some stack =>
          have hbet := h.wager
            ((s.hand.round.raiseOrCall p chips s.hand.ableToAct).settleAction p) p
            (stack - chips) allIn Round.phase_raiseOrCall
          refine Standing.turnPassed ?_
          cases allIn <;> exact { hbet with }
  | fold p =>
      obtain ⟨i, hfold, -⟩ := foldOut_eq (h.dealt p hp) h.once hp
      simp only [Spot.carryOut, hfold]
      exact h.withFold p i

theorem Standing.act (h : s.Standing) (p : PlayerId) (a : Action) : (s.act p a).1.Kept := by
  unfold Spot.act
  cases hv : s.validate p a with
  | error e => exact .inr h
  | ok plan =>
      dsimp only
      rw [apply_eq]
      exact (h.carryOut (player_of_validate hv)).andThen_advance

/-! ## Departures -/

theorem Standing.strike (h : s.Standing) {place : Nat} {next : PlayerId}
    (hout : p ∉ s.hand.turns.order) :
    (s.mapHand (·.strike s.roster p place next first)).Standing :=
  { h with
    nodup := h.nodup.filter _
    within := fun _ hq => List.mem_filter.mpr
      ⟨h.within hq, decide_eq_true (ne_of_mem_of_not_mem hq hout)⟩
    seated := fun q hq => h.seated q (List.mem_filter.mp hq).1 }

/-- Whoever leaves is no longer dealt in, and the others are where they were. -/
theorem Standing.takeOut (h : s.Standing) (p : PlayerId) :
    (s.takeOut p).1.1.Standing ∧ p ∉ (s.takeOut p).1.1.hand.dealtIn.order := by
  unfold Spot.takeOut
  rw [if_neg h.not_over]
  by_cases hin : p ∈ s.hand.dealtIn.order
  · obtain ⟨place, hremove, -⟩ := TurnOrder.remove_of_mem h.nodup hin
    obtain ⟨next, -, hstrike⟩ := strikeOff_eq s p place
    let struck := s.mapHand (·.strike s.roster p place next s.hand.firstToAct)
    simp only [hremove, hstrike]
    by_cases hp : p ∈ s.hand.turns.order
    · have hheld : struck.hand.turns.contains p = true := List.contains_iff_mem.mpr hp
      obtain ⟨first, hleaver⟩ := foldedOut_eq struck p
      obtain ⟨i, hfold, -⟩ := foldOut_eq
        (s := s.mapHand (·.strike s.roster p place next first)) (h.dealt p hp) h.once hp
      have hfolded : p ∉ (s.hand.withFold p i).turns.order := fun hq =>
        of_decide_eq_true (List.mem_filter.mp hq).2 rfl
      rw [if_pos hheld, hleaver _ hfold]
      -- The books are kept before the fold, but it does not matter which of them comes first.
      have hmid : (s.mapHand fun h =>
          (h.withFold p i).strike s.roster p place next first).Standing :=
        (h.withFold p i).strike hfolded
      exact ⟨hmid, fun hq => of_decide_eq_true (List.mem_filter.mp hq).2 rfl⟩
    · have hgone : ¬ struck.hand.turns.contains p = true := fun hq =>
        hp (List.contains_iff_mem.mp hq)
      rw [if_neg hgone]
      exact ⟨h.strike hp, Hand.not_mem_strike⟩
  · have hremove : s.hand.dealtIn.remove p = .error (.notFound p) := by
      rw [TurnOrder.remove, TurnOrder.place_of_not_mem hin]
      rfl
    simp only [hremove]
    exact ⟨h, hin⟩

theorem Standing.removePlayer (h : s.Standing) (p : PlayerId) :
    (s.removePlayer p).1.hand.isOver = true ∨
      (s.removePlayer p).1.Standing ∧ p ∉ (s.removePlayer p).1.hand.dealtIn.order := by
  obtain ⟨hmid, hout⟩ := h.takeOut p
  rw [removePlayer_goesOn]
  generalize s.takeOut p = o at hmid hout
  obtain ⟨⟨t, e | ⟨⟩⟩, _ | _⟩ := o
  · exact .inr ⟨hmid, hout⟩
  · exact .inr ⟨hmid, hout⟩
  · exact .inr ⟨hmid, hout⟩
  · refine (advance_goes hmid.betting).imp_right fun hs => ⟨hmid.still hs, ?_⟩
    rw [hs.dealtIn]
    exact hout

/-- Seats may change as long as nobody who is dealt in gets up. -/
theorem Standing.reseat (h : s.Standing) {r : Roster} (hv : r.Valid)
    (hseated : ∀ p ∈ s.hand.dealtIn.order, r.contains p = true) :
    Standing { s with roster := r } :=
  { h with valid := hv, seated := hseated }

theorem Standing.move (h : s.Standing) (m : Move) : (s.move m).1.Kept := by
  cases m with
  | act p a => exact h.act p a
  | leave p =>
      have hleft := h.removePlayer p
      simp only [Spot.move]
      generalize s.removePlayer p = o at hleft
      obtain ⟨t, e | ⟨⟩⟩ := o
      · exact hleft.imp_right (·.1)
      · refine hleft.imp_right fun hstays => ?_
        obtain ⟨hstands, hout⟩ := hstays
        refine hstands.reseat (valid_vacate hstands.valid) fun q hq => ?_
        obtain ⟨c, hc⟩ := Roster.contains_iff.mp (hstands.seated q hq)
        apply Roster.contains_of_stack
        rw [stack?_vacate hstands.valid (ne_of_mem_of_not_mem hq hout), hc]
  | sitDown p name stack wanted =>
      simp only [Spot.move]
      cases hadd : s.roster.add p name stack wanted with
      | error e => exact .inr h
      | ok added =>
          refine .inr (h.reseat (Roster.add_spec h.valid hadd).2.2.1 fun q hq => ?_)
          obtain ⟨c, hc⟩ := Roster.contains_iff.mp (h.seated q hq)
          exact Roster.contains_of_stack
            ((Roster.stack?_add h.valid hadd (h.seated q hq)).trans hc)

theorem Kept.play (h : s.Kept) (moves : List Move) : (s.play moves).Kept := by
  induction moves generalizing s with
  | nil => exact h
  | cons m rest ih =>
      apply ih
      rcases h with hover | hstands
      · exact .inl ((hand_move_of_over hover m).symm ▸ hover)
      · exact hstands.move m

theorem AtRest.kept (h : s.AtRest) : s.Kept := by
  refine h.goes.symm.imp_right fun ha => ?_
  exact
    { valid := h.valid
      nodup := ha.places.nodup
      once := ha.places.turns_nodup
      within := ha.places.turns_subset
      dealt := fun p hp => ha.places.dealt p (ha.places.turns_subset hp)
      seated := ha.places.seated
      betting := ha.betting }

/-! ## Folding and leaving -/

/-- The books without a player, who takes their stack away. -/
def ledgerWithout (s : Spot) (p : PlayerId) (dealtIn : TurnOrder) : Ledger where
  dealtIn := dealtIn
  nextDealer := s.hand.buttonWithout p
  departedChips := s.hand.departedChips + (s.roster.stack? p).getD 0

/-- The books come out the same if they are kept later. -/
theorem Still.strikeOff (h : Still s s') (p : PlayerId) (dealtIn : TurnOrder) :
    s'.strikeOff p dealtIn = s'.rebook (s.ledgerWithout p dealtIn) s'.hand.firstToAct := by
  have hbutton : s'.hand.buttonWithout p = s.hand.buttonWithout p := by
    simp only [Hand.buttonWithout, h.dealtIn, h.button]
  have hledger : s'.ledgerWithout p dealtIn = s.ledgerWithout p dealtIn := by
    simp only [ledgerWithout, hbutton, h.departed, h.roster]
  exact congrArg (s'.rebook · s'.hand.firstToAct) hledger

/-- A leaver who is waited for is folded as by an action, whatever the books. -/
theorem foldLeaver_rebook (hcur : s.hand.currentPlayer = some p) (b : Ledger) (first : PlayerId) :
    ∃ first', (s.rebook b first).foldLeaver p = rebooked (s.applyFold p) b first' := by
  obtain ⟨opener, hopener⟩ : ∃ opener, ((s.rebook b first).mapHand fun h =>
      if h.firstToAct = p then
        { h with firstToAct := (h.turns.nextTo p).toOption.getD h.firstToAct }
      else h) = s.rebook b opener := by
    by_cases hfirst : first = p
    · refine ⟨(s.hand.turns.nextTo p).toOption.getD first, ?_⟩
      exact congrArg (fun hand => ({ s with hand } : Spot)) (if_pos hfirst)
    · exact ⟨first, congrArg (fun hand => ({ s with hand } : Spot)) (if_neg hfirst)⟩
  have hcur' : (s.rebook b first).hand.currentPlayer = some p := hcur
  simp only [foldLeaver, hopener, foldOut_rebook, applyFold, hcur', true_or, if_true]
  obtain ⟨t, e | ⟨⟩⟩ := s.foldOut p
  · exact ⟨opener, rfl⟩
  · exact advance_rebook t b opener

theorem Standing.act_fold (h : s.Standing) (hcur : s.hand.currentPlayer = some p) :
    s.act p .fold = s.applyFold p := by
  have hp := mem_turns_of_currentPlayer hcur
  obtain ⟨c, hc⟩ := Roster.contains_iff.mp (h.seated p (h.within hp))
  have hfits : s.validate p .fold = .ok (.fold p) := by
    rw [validate_of_current h.betting (h.dealt p hp) hcur hc]
    rfl
  exact act_eq_apply hfits

/-- Whoever is waited for and leaves folds, with the books kept before the hand moves on. -/
theorem Standing.removePlayer_of_current (h : s.Standing) (hcur : s.hand.currentPlayer = some p) :
    ∃ dealtIn first, s.hand.dealtIn.remove p = .ok dealtIn ∧
      s.removePlayer p = rebooked (s.act p .fold) (s.ledgerWithout p dealtIn) first := by
  have hp := mem_turns_of_currentPlayer hcur
  obtain ⟨place, hremove, -⟩ := TurnOrder.remove_of_mem h.nodup (h.within hp)
  have hheld : s.hand.turns.contains p = true := List.contains_iff_mem.mpr hp
  obtain ⟨first, hfold⟩ := foldLeaver_rebook hcur
    (s.ledgerWithout p ⟨s.hand.dealtIn.order.filter (· ≠ p), place⟩) s.hand.firstToAct
  refine ⟨_, first, hremove, ?_⟩
  rw [h.act_fold hcur, ← hfold, Spot.removePlayer, if_neg h.not_over]
  simp only [hremove]
  exact if_pos hheld

/-- Whoever folded on their turn and leaves is struck off, if the hand goes on. -/
theorem Standing.removePlayer_after_fold (h : s.Standing) (hcur : s.hand.currentPlayer = some p)
    {dealtIn : TurnOrder} (hremove : s.hand.dealtIn.remove p = .ok dealtIn)
    (hlive : (s.act p .fold).1.hand.isOver = false) :
    (s.act p .fold).1.removePlayer p = done ((s.act p .fold).1.rebook
      (s.ledgerWithout p dealtIn) (s.act p .fold).1.hand.firstToAct) := by
  have hp := mem_turns_of_currentPlayer hcur
  obtain ⟨i, hfold, -⟩ := foldOut_eq (h.dealt p hp) h.once hp
  have hact : s.act p .fold = (s.mapHand (·.withFold p i)).advance := by
    simp only [h.act_fold hcur, applyFold, hfold, done]
  have hstill : Still (s.mapHand (·.withFold p i)) (s.act p .fold).1 := by
    rw [hact] at hlive ⊢
    exact (advance_goes (s := s.mapHand (·.withFold p i)) h.betting).resolve_left
      fun hover => Bool.false_ne_true (hlive.symm.trans hover)
  generalize (s.act p .fold).1 = t at hlive hstill
  have hgone : t.hand.turns.contains p = false := by
    refine Bool.eq_false_iff.mpr fun hin => ?_
    have hin : p ∈ t.hand.turns.order := List.contains_iff_mem.mp hin
    rw [hstill.turns] at hin
    exact of_decide_eq_true (List.mem_filter.mp hin).2 rfl
  have hremove' : t.hand.dealtIn.remove p = .ok dealtIn := hstill.dealtIn ▸ hremove
  have hturns : (t.strikeOff p dealtIn).hand.turns = t.hand.turns := rfl
  simp only [Spot.removePlayer, hlive, hremove', hturns, hgone, Bool.false_eq_true, if_false]
  exact congrArg done (hstill.strikeOff p dealtIn)

/-- Two spots that differ in the books at most, and not even there while the hand is played. -/
structure Alike (s s' : Spot) : Prop where
  events : s.hand.events = s'.hand.events
  roster : s.roster = s'.roster
  evaluator : s.evaluator = s'.evaluator
  phase : s.hand.phase = s'.hand.phase
  board : s.hand.board = s'.hand.board
  deck : s.hand.deck = s'.hand.deck
  stakes : s.hand.stakes = s'.hand.stakes
  round : s.hand.round = s'.hand.round
  turns : s.hand.turns = s'.hand.turns
  holdings : s.hand.holdings = s'.hand.holdings
  booked : s.hand.isOver = false →
    s.hand.dealtIn = s'.hand.dealtIn ∧ s.hand.nextDealer = s'.hand.nextDealer ∧
      s.hand.departedChips = s'.hand.departedChips ∧ s.chipsInPlay = s'.chipsInPlay

theorem alike_rebook (s : Spot) (b : Ledger) (first first' : PlayerId) :
    Alike (s.rebook b first) (s.rebook b first') :=
  ⟨rfl, rfl, rfl, rfl, rfl, rfl, rfl, rfl, rfl, rfl, fun _ => ⟨rfl, rfl, rfl, rfl⟩⟩

theorem alike_of_over (hover : s.hand.isOver = true) (b : Ledger) (first : PlayerId) :
    Alike (s.rebook b first) s :=
  ⟨rfl, rfl, rfl, rfl, rfl, rfl, rfl, rfl, rfl, rfl, fun hlive =>
    absurd (hlive.symm.trans hover) Bool.false_ne_true⟩

theorem Standing.leaving (h : s.Standing) (hcur : s.hand.currentPlayer = some p) :
    Alike (s.removePlayer p).1 ((s.act p .fold).1.removePlayer p).1 ∧
      (s.removePlayer p).2 = (s.act p .fold).2 ∧
      ((s.act p .fold).1.removePlayer p).2 = .ok () := by
  obtain ⟨dealtIn, first, hremove, hleft⟩ := h.removePlayer_of_current hcur
  rw [hleft]
  cases hlive : (s.act p .fold).1.hand.isOver with
  | true =>
      rw [removePlayer_of_over hlive]
      exact ⟨alike_of_over hlive _ _, rfl, rfl⟩
  | false =>
      rw [h.removePlayer_after_fold hcur hremove hlive]
      exact ⟨alike_rebook _ _ _ _, rfl, rfl⟩

end Spot

namespace Hand

/-- At every point of a hand whoever is waited for and leaves does the same to it as if they had
folded before. If the hand goes on, the books agree too. -/
theorem leaving_is_folding_first (r r' : Roster) (dealer : PlayerId) (number : Nat)
    (blinds : Blinds) (deck : Deck) (ev ev' : Evaluator) (h : Hand) (hv : r.Valid)
    (hstart : start number r dealer blinds deck ev = (r', ev', .ok h)) (moves : List Move)
    (s : Spot) (hs : Spot.play ⟨h, r', ev'⟩ moves = s) (p : PlayerId)
    (hcur : s.hand.currentPlayer = some p) :
    Spot.Alike (s.removePlayer p).1 ((s.act p .fold).1.removePlayer p).1 ∧
      (s.removePlayer p).2 = (s.act p .fold).2 ∧
      ((s.act p .fold).1.removePlayer p).2 = .ok () := by
  obtain ⟨-, -, -, -, -, -, -, hrest⟩ := movesOn_of_deal hv hstart
  have hkept : s.Kept := hs ▸ hrest.kept.play moves
  have hlive := not_over_of_current hcur
  exact (hkept.resolve_left fun hover => Bool.false_ne_true (hlive.symm.trans hover)).leaving hcur

/-- One of many leaves instead of folding, and the others play on. -/
theorem leaving_is_folding_first_packed :
    ∃ s : Spot, start 1 packed 1 ⟨5, 10⟩ (.seeded 7) { value := fun _ => HandValue.best } =
        (s.roster, s.evaluator, .ok s.hand) ∧
      s.hand.currentPlayer = some 4 ∧ (s.removePlayer 4).1.hand.isOver = false ∧
      Spot.Alike (s.removePlayer 4).1 ((s.act 4 .fold).1.removePlayer 4).1 ∧
      (s.removePlayer 4).2 = (s.act 4 .fold).2 ∧
      ((s.act 4 .fold).1.removePlayer 4).2 = .ok () := by
  have hasked : (spotOf? (start 1 packed 1 ⟨5, 10⟩ (.seeded 7)
      { value := fun _ => HandValue.best })).map (fun s =>
        (s.hand.currentPlayer, (s.removePlayer 4).1.hand.isOver)) = some (some 4, false) := by
    decide +kernel
  obtain ⟨s, hspot, hboth⟩ := Option.map_eq_some_iff.mp hasked
  obtain ⟨hcurrent, hlive⟩ := Prod.mk.inj hboth
  have hs := eq_of_spotOf? hspot
  exact ⟨s, hs, hcurrent, hlive,
    leaving_is_folding_first packed s.roster 1 1 ⟨5, 10⟩ (.seeded 7) _ s.evaluator s.hand
      (by decide +kernel) hs [] s rfl 4 hcurrent⟩

end Hand
end Holdem
