import Holdem.Proofs.Hand.Play

/-!
# Waiting for a player

A live hand never stalls. It waits for a player who can act and has to, who is free to fold, to go
all in and to do one of checking and calling, while everybody else is refused.
-/
namespace Holdem.Spot
variable {s : Spot} {p q : PlayerId} {a : Action}

/-- The hand waits for a player. -/
structure WaitsFor (s : Spot) (p : PlayerId) : Prop where
  current : s.hand.currentPlayer = some p
  inTurns : p ∈ s.hand.turns.order
  standing : s.hand.isFolded p = false
  behind : s.hand.isAllIn p = false
  funded : ∃ stack, s.roster.stack? p = some stack ∧ 0 < stack
  owes : s.hand.round.owesAction p = true
  mayFold : (s.act p .fold).2 = .ok ()
  mayGoAllIn : (s.act p .allIn).2 = .ok ()
  mayCheckOrCall : (s.act p .check).2 = .ok () ↔ (s.act p .call).2 ≠ .ok ()
  othersRefused : ∀ q, q ≠ p → ∀ a, ∃ e, s.act q a = s.fail e

/-- The turns are those of everybody dealt in who is still seated and has not folded, and it is
marked who of them has nothing left. -/
structure TurnsHold (s : Spot) : Prop where
  nodup : s.hand.turns.order.Nodup
  mem_iff : ∀ q, q ∈ s.hand.turns.order ↔
    s.hand.isDealtIn q = true ∧ s.roster.contains q = true ∧ s.hand.isFolded q = false
  allIn_iff : ∀ q ∈ s.hand.turns.order, s.hand.isAllIn q = true ↔ s.roster.stack? q = some 0

theorem turnsHold_of_places (hp : s.hand.Places s.roster) : s.TurnsHold where
  nodup := hp.turns_nodup
  mem_iff q := by
    rw [hp.mem_turns_iff]
    constructor
    · rintro ⟨hd, hf⟩
      have hturn := hp.mem_turns_iff.mpr ⟨hd, hf⟩
      exact ⟨hd, hp.seated q (hp.turns_subset hturn), hf⟩
    · rintro ⟨hd, -, hf⟩
      exact ⟨hd, hf⟩
  allIn_iff := hp.allIn_iff

/-- Nobody but the player on turn is heard. -/
theorem act_of_not_current (h : s.hand.currentPlayer ≠ some p) : ∃ e, s.act p a = s.fail e := by
  cases hv : s.validate p a with
  | error e => exact ⟨e, act_eq_fail hv⟩
  | ok plan => exact absurd (validate_ok hv).1 h

theorem act_ok {plan : Plan} (hl : s.hand.Live s.roster) (h : s.validate p a = .ok plan) :
    (s.act p a).2 = .ok () := by
  obtain ⟨s', hs', -⟩ := act_of_accepted hl h
  rw [hs']
  rfl

/-- Whether a player on turn may check or call depends on whether there is a bet to call. -/
theorem check_iff_not_call {stack : Chips} (hl : s.hand.Live s.roster)
    (hheard : ∀ a, s.validate p a = s.planFor p stack a) :
    (s.act p .check).2 = .ok () ↔ (s.act p .call).2 ≠ .ok () := by
  by_cases hcall : s.hand.round.toCall p = 0
  · have hcheck : s.validate p .check = .ok (.check p) := by
      rw [hheard, planFor, hcall]
      rfl
    have hrefused : s.validate p .call = .error .nothingToCall := by
      rw [hheard, planFor, hcall]
      rfl
    rw [act_ok hl hcheck, act_eq_fail hrefused]
    simp [fail]
  · have hrefused : s.validate p .check = .error (.cannotCheck (s.hand.round.toCall p)) := by
      rw [hheard, planFor, if_pos (Nat.pos_of_ne_zero hcall)]
    have hgo : s.validate p .call =
        .ok (s.commitPlan p .call (min (s.hand.round.toCall p) stack)) := by
      rw [hheard, planFor, if_neg hcall]
    rw [act_ok hl hgo, act_eq_fail hrefused]
    simp [fail]

/-- A live hand waits for somebody. -/
theorem exists_waitsFor (hl : s.hand.Live s.roster) : ∃ p, s.WaitsFor p := by
  obtain ⟨p, howes, -, hcur⟩ := hl.currentPlayer
  have hable := hl.bets.able p howes
  obtain ⟨hturn, hbehind⟩ := Hand.mem_ableToAct.mp hable
  obtain ⟨stack, hstack, hpos⟩ := hl.places.stack_pos hable
  have hdealt := hl.places.dealt p (hl.places.turns_subset hturn)
  have hheard : ∀ a, s.validate p a = s.planFor p stack a := fun a =>
    validate_of_current hl.betting hdealt hcur hstack
  exact
    ⟨p, { current := hcur
          inTurns := hturn
          standing := (hl.places.mem_turns.mp hturn).2
          behind := hbehind
          funded := ⟨stack, hstack, hpos⟩
          owes := Round.owesAction_iff.mpr howes
          mayFold := act_ok hl ((hheard .fold).trans rfl)
          mayGoAllIn := act_ok hl ((hheard .allIn).trans rfl)
          mayCheckOrCall := check_iff_not_call hl hheard
          othersRefused := fun q hq a => act_of_not_current fun h =>
            hq (Option.some_inj.mp (h.symm.trans hcur)) }⟩

end Holdem.Spot
