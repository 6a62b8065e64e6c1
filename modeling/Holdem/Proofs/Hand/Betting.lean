import Holdem.Hand.Play
import Holdem.Proofs.Hand.Progress

/-!
# Putting chips in

Chips go from a stack to a bet in two ways, as a blind or by choice. Either way the player is
marked all in when nothing is left of the stack, and everything that holds of a hand in order
still holds. What differs is who owes an action afterwards.
-/
namespace Holdem

section Round
variable {b : Round} {p q : PlayerId} {chips : Chips} {able : List PlayerId}

@[simp] theorem Round.contribution_commit :
    (b.commit p chips).contribution q = b.contribution q + if q = p then chips else 0 :=
  NatMap.chips_addChips

theorem Round.contributions_raiseOrCall :
    (b.raiseOrCall p chips able).contributions = b.contributions.addChips p chips := by
  simp only [raiseOrCall]
  split <;> rfl

theorem Round.highestBet_raiseOrCall (b : Round) (p : PlayerId) (chips : Chips)
    (able : List PlayerId) :
    (b.raiseOrCall p chips able).highestBet = max b.highestBet (b.contribution p + chips) := by
  simp only [raiseOrCall, contribution_commit, if_true]
  split
  · next h => exact (Nat.max_eq_right (Nat.le_of_lt h)).symm
  · next h => exact (Nat.max_eq_left (Nat.le_of_not_lt h)).symm

theorem Round.phase_raiseOrCall : (b.raiseOrCall p chips able).phase = b.phase := by
  simp only [raiseOrCall]
  split <;> rfl

/-- Either the bet was raised, and everybody able owes an answer, or it was not. -/
theorem Round.pending_raiseOrCall (b : Round) (p : PlayerId) (chips : Chips)
    (able : List PlayerId) :
    (b.highestBet < b.contribution p + chips ∧
      (b.raiseOrCall p chips able).pending = .ofList able) ∨
    (b.contribution p + chips ≤ b.highestBet ∧
      (b.raiseOrCall p chips able).pending = b.pending) := by
  simp only [raiseOrCall, contribution_commit, if_true]
  split
  · next h => exact .inl ⟨h, rfl⟩
  · next h => exact .inr ⟨Nat.le_of_not_lt h, rfl⟩

end Round

namespace Hand
variable {h : Hand} {r : Roster} {p q : PlayerId} {round : Round} {allIn : Bool}

/-- A hand after somebody put chips in, before anything is told of it. -/
def withBet (h : Hand) (p : PlayerId) (round : Round) (allIn : Bool) : Hand :=
  let bet := { h with round }
  if allIn then bet.markAllIn p else bet

section Fields

@[simp] theorem turns_withBet : (h.withBet p round allIn).turns = h.turns := by
  cases allIn <;> rfl

@[simp] theorem dealtIn_withBet : (h.withBet p round allIn).dealtIn = h.dealtIn := by
  cases allIn <;> rfl

@[simp] theorem number_withBet : (h.withBet p round allIn).number = h.number := by
  cases allIn <;> rfl

@[simp] theorem nextDealer_withBet : (h.withBet p round allIn).nextDealer = h.nextDealer := by
  cases allIn <;> rfl

@[simp] theorem firstToAct_withBet : (h.withBet p round allIn).firstToAct = h.firstToAct := by
  cases allIn <;> rfl

@[simp] theorem dealer_withBet : (h.withBet p round allIn).dealer = h.dealer := by
  cases allIn <;> rfl

@[simp] theorem order_withBet : (h.withBet p round allIn).order = h.order := by
  cases allIn <;> rfl

@[simp] theorem board_withBet : (h.withBet p round allIn).board = h.board := by
  cases allIn <;> rfl

@[simp] theorem round_withBet : (h.withBet p round allIn).round = round := by
  cases allIn <;> rfl

@[simp] theorem stakes_withBet : (h.withBet p round allIn).stakes = h.stakes := by
  cases allIn <;> rfl

@[simp] theorem deck_withBet : (h.withBet p round allIn).deck = h.deck := by
  cases allIn <;> rfl

@[simp] theorem events_withBet : (h.withBet p round allIn).events = h.events := by
  cases allIn <;> rfl

theorem isDealtIn_withBet : (h.withBet p round allIn).isDealtIn q = h.isDealtIn q := by
  cases allIn
  · rfl
  · exact isDealtIn_markAllIn

theorem isFolded_withBet : (h.withBet p round allIn).isFolded q = h.isFolded q := by
  cases allIn
  · rfl
  · exact isFolded_markAllIn

theorem isAllIn_withBet (hp : h.isDealtIn p = true) :
    (h.withBet p round allIn).isAllIn q = (allIn && decide (q = p) || h.isAllIn q) := by
  cases allIn
  · rw [Bool.false_and, Bool.false_or]
    rfl
  · rw [Bool.true_and]
    exact isAllIn_markAllIn (h := { h with round }) hp

theorem mem_ableToAct_withBet (hp : h.isDealtIn p = true) :
    q ∈ (h.withBet p round allIn).ableToAct ↔ q ∈ h.ableToAct ∧ (q = p → allIn = false) := by
  rw [mem_ableToAct, mem_ableToAct, turns_withBet, isAllIn_withBet hp, and_assoc]
  apply and_congr_right
  intro _
  cases allIn <;> by_cases hq : q = p <;> simp [hq]

end Fields

section Bet
variable {chips stack : Chips}

theorem potTotal_withBet (hround : round.contributions = h.round.contributions.addChips p chips) :
    (h.withBet p round allIn).potTotal = h.potTotal + chips := by
  rw [potTotal, stakes_withBet, round_withBet, Round.total, hround, NatMap.totalChips_addChips,
    potTotal, Nat.add_assoc]
  rfl

theorem Places.withBet (hs : h.Places r) (hturn : p ∈ h.turns.order)
    (hstack : r.stack? p = some stack) (hle : chips ≤ stack)
    (hall : allIn = true ↔ stack = chips) :
    (h.withBet p round allIn).Places (r.setStack p (stack - chips)) := by
  have hdealt := hs.dealt p (hs.turns_subset hturn)
  constructor
  · rw [dealtIn_withBet]
    exact hs.nodup
  · intro q hq
    rw [dealtIn_withBet] at hq
    rw [Roster.contains_setStack]
    exact hs.seated q hq
  · intro q hq
    rw [dealtIn_withBet] at hq
    rw [isDealtIn_withBet]
    exact hs.dealt q hq
  · intro q hq
    rw [dealtIn_withBet] at hq
    rw [order_withBet]
    exact hs.placed q hq
  · intro q hq hout
    rw [isDealtIn_withBet] at hq
    rw [dealtIn_withBet] at hout
    rw [isFolded_withBet]
    exact hs.gone q hq hout
  · simp only [turns_withBet, dealtIn_withBet, isFolded_withBet]
    exact hs.turns_eq
  · rw [turns_withBet]
    exact hs.pointer
  · intro q hq
    rw [turns_withBet] at hq
    have hbefore := hs.allIn_iff q hq
    rw [isAllIn_withBet hdealt, Roster.stack?_setStack]
    by_cases hqp : q = p
    · subst hqp
      rw [hstack, Option.some_inj] at hbefore
      rw [decide_eq_true rfl, Bool.and_true, Bool.or_eq_true, hall, hbefore, if_pos rfl, hstack,
        Option.map_some, Option.some_inj]
      lia
    · rw [if_neg hqp, decide_eq_false hqp, Bool.and_false, Bool.false_or]
      exact hbefore

theorem Balanced.withBet (hs : h.Balanced r) (hn : h.dealtIn.order.Nodup)
    (hp : p ∈ h.dealtIn.order) (hstack : r.stack? p = some stack) (hle : chips ≤ stack)
    (hround : round.contributions = h.round.contributions.addChips p chips) :
    (h.withBet p round allIn).Balanced (r.setStack p (stack - chips)) := by
  have hset := Roster.chipsOf_setStack (c := stack - chips) hn hp hstack
  have hsum := hs.sum
  have hstarting : (h.withBet p round allIn).startingChips = h.startingChips := by
    cases allIn <;> rfl
  have hdeparted : (h.withBet p round allIn).departedChips = h.departedChips := by
    cases allIn <;> rfl
  refine ⟨?_, hstarting ▸ hs.countable⟩
  rw [dealtIn_withBet, potTotal_withBet hround, hstarting, hdeparted]
  lia

/-- Nobody has put in more than can be counted. -/
theorem Balanced.bet_le (hs : h.Balanced r) (hn : h.dealtIn.order.Nodup)
    (hp : p ∈ h.dealtIn.order) (hstack : r.stack? p = some stack) (hle : chips ≤ stack) :
    h.round.contribution p + chips ≤ maxChips := by
  have hsum := hs.sum
  have hmax := hs.countable
  have hbet : h.round.contribution p ≤ h.round.total := NatMap.chips_le_totalChips
  rw [Roster.chipsOf_eq_add hn hp, hstack, Option.getD_some, potTotal] at hsum
  lia

theorem Books.withBet (hs : h.Books) (hplaces : h.Places r) (hturn : p ∈ h.turns.order)
    (hstack : r.stack? p = some stack) (hall : allIn = true → stack = chips)
    (hround : round.contributions = h.round.contributions.addChips p chips) :
    (h.withBet p round allIn).Books := by
  have hdealt := hplaces.dealt p (hplaces.turns_subset hturn)
  have hbet : ∀ q, round.contribution q =
      h.round.contribution q + if q = p then chips else 0 := fun q => by
    rw [Round.contribution, hround]
    exact NatMap.chips_addChips
  constructor
  · intro q
    rw [stakes_withBet, isFolded_withBet]
    exact hs.folded q
  · intro q hq
    rw [stakes_withBet] at hq
    rw [isDealtIn_withBet]
    exact hs.stakers q hq
  · intro q hq
    rw [round_withBet, hround, NatMap.contains_addChips] at hq
    rw [isDealtIn_withBet]
    rcases hq with rfl | hq
    · exact hdealt
    · exact hs.bettors q hq
  · intro htotal q hq
    rw [stakes_withBet] at htotal ⊢
    rw [turns_withBet] at hq
    exact hs.invested htotal q hq
  · intro q hq hmark
    rw [turns_withBet] at hq
    rw [isAllIn_withBet hdealt, Bool.or_eq_true, Bool.and_eq_true, decide_eq_true_eq] at hmark
    rw [stakes_withBet, round_withBet, hbet, ← Nat.add_assoc]
    -- Whoever goes all in had chips to put in, unless they were all in before.
    by_cases hbefore : h.isAllIn q = true
    · exact Nat.add_pos_left (hs.allIn q hq hbefore) _
    · obtain ⟨hmarked, rfl⟩ := hmark.resolve_right hbefore
      rw [hplaces.allIn_iff q hq, hstack, Option.some_inj] at hbefore
      rw [if_pos rfl, ← hall hmarked]
      exact Nat.add_pos_right _ (Nat.pos_of_ne_zero hbefore)

/-! ## Betting by choice -/

theorem Bets.raiseOrCall (hs : h.Bets) (hdealt : h.isDealtIn p = true)
    (hall : allIn = false → h.round.highestBet ≤ h.round.contribution p + chips)
    (hcount : h.round.contribution p + chips ≤ maxChips) :
    (h.withBet p ((h.round.raiseOrCall p chips h.ableToAct).settleAction p) allIn).Bets := by
  have hbet : ∀ q, (h.round.raiseOrCall p chips h.ableToAct).contribution q =
      h.round.contribution q + if q = p then chips else 0 := fun q => by
    rw [Round.contribution, Round.contributions_raiseOrCall]
    exact NatMap.chips_addChips
  have hhighest := Round.highestBet_raiseOrCall h.round p chips h.ableToAct
  have hraised := Round.pending_raiseOrCall h.round p chips h.ableToAct
  constructor
  · intro q hq
    rw [round_withBet] at hq
    obtain ⟨hq, hne⟩ := NatSet.mem_erase.mp hq
    refine (mem_ableToAct_withBet hdealt).mpr ⟨?_, fun h => absurd h hne⟩
    rcases hraised with ⟨-, hpending⟩ | ⟨-, hpending⟩
    · exact NatSet.mem_ofList.mp (hpending ▸ hq)
    · exact hs.able q (hpending ▸ hq)
  · intro q hq hnot
    obtain ⟨hq, hbehind⟩ := (mem_ableToAct_withBet hdealt).mp hq
    rw [round_withBet] at hnot ⊢
    refine (hbet q).trans (Eq.trans ?_ hhighest.symm)
    by_cases hqp : q = p
    · rw [if_pos hqp, hqp]
      exact (Nat.max_eq_right (hall (hbehind hqp))).symm
    · have hnot' : q ∉ (h.round.raiseOrCall p chips h.ableToAct).pending := fun h =>
        hnot (NatSet.mem_erase.mpr ⟨h, hqp⟩)
      rw [if_neg hqp, Nat.add_zero]
      -- Somebody able who owes no answer to the bet was not asked for one.
      rcases hraised with ⟨-, hpending⟩ | ⟨hle, hpending⟩
      · exact absurd (hpending ▸ NatSet.mem_ofList.mpr hq) hnot'
      · rw [Nat.max_eq_left hle]
        exact hs.matched q hq (hpending ▸ hnot')
  · intro q
    rw [round_withBet]
    refine Nat.le_trans (Nat.le_of_eq (hbet q)) (Nat.le_trans ?_ (Nat.le_of_eq hhighest.symm))
    split
    · next hqp => exact hqp ▸ Nat.le_max_right _ _
    · exact Nat.le_trans (hs.highest q) (Nat.le_max_left _ _)
  · rw [round_withBet]
    exact Nat.le_trans (Nat.le_of_eq hhighest) (Nat.max_le.mpr ⟨hs.countable, hcount⟩)

/-- A bet that somebody can make keeps the hand in order. -/
theorem Steady.raiseOrCall (hs : h.Steady r) (hturn : p ∈ h.turns.order)
    (hstack : r.stack? p = some stack) (hle : chips ≤ stack)
    (hall : allIn = true ↔ stack = chips)
    (hmatch : stack = chips ∨ h.round.highestBet ≤ h.round.contribution p + chips) :
    (h.withBet p ((h.round.raiseOrCall p chips h.ableToAct).settleAction p) allIn).Steady
      (r.setStack p (stack - chips)) := by
  have hin := hs.places.turns_subset hturn
  have hdealt := hs.places.dealt p hin
  have hcount := hs.balanced.bet_le hs.places.nodup hin hstack hle
  exact
    { places := hs.places.withBet hturn hstack hle hall
      bets := hs.bets.raiseOrCall hdealt
        (fun hnot => hmatch.resolve_left fun h => by rw [hall.mpr h] at hnot; cases hnot) hcount
      books := hs.books.withBet hs.places hturn hstack hall.mp Round.contributions_raiseOrCall
      balanced :=
        hs.balanced.withBet hs.places.nodup hin hstack hle Round.contributions_raiseOrCall
      betting := by
        rw [phase, round_withBet]
        exact (congrArg Phase.isBetting Round.phase_raiseOrCall).trans hs.betting }

end Bet

end Hand

/-- Chips that are put in go from a stack to the middle. -/
theorem Spot.Moves.bet {s : Spot} {p : PlayerId} {chips stack : Chips} {round : Round}
    {allIn : Bool} (hin : p ∈ s.hand.dealtIn.order) (hstack : s.roster.stack? p = some stack)
    (hle : chips ≤ stack)
    (hround : round.contributions = s.hand.round.contributions.addChips p chips) :
    s.Moves
      { s with
        roster := s.roster.setStack p (stack - chips)
        hand := s.hand.withBet p round allIn } where
  restacked := .write _ .same hin
  pooled ids hn hsub := by
    have hset := Roster.chipsOf_setStack (c := stack - chips) hn (hsub hin) hstack
    have hpot : (s.hand.withBet p round allIn).potTotal = s.hand.potTotal + chips :=
      Hand.potTotal_withBet hround
    dsimp only
    rw [hpot]
    lia
  remain := by
    dsimp only
    rw [Hand.dealtIn_withBet]
    exact List.Subset.refl _
  told := ⟨[], by rw [List.append_nil]; exact Hand.events_withBet, by simp⟩

end Holdem
