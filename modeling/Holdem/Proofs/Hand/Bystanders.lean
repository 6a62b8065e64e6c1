import Holdem.Proofs.Hand.Course
import Holdem.Table.Snapshot

/-!
# Players who watch a hand

Somebody who sits at the table of a hand without being dealt in any more only watches it. Nothing
that happens in the hand touches their seat, their stack, or what they hold from before they were
struck off. To the hand they are whoever held that: somebody who was never dealt in, or somebody
who has folded.
-/
namespace Holdem

/-- A seated player who is not dealt in any more, with what they hold if they once were. -/
structure Hand.Bystander (h : Hand) (r : Roster) (x : Player) (held : Option Holding) : Prop where
  out : x.id ∉ h.dealtIn.order
  seated : r.get? x.id = some x
  holding : h.holdings.get? x.id = held

namespace Hand
variable {h : Hand} {p q : PlayerId}

theorem holding_markAllIn (hq : q ≠ p) :
    (h.markAllIn p).holdings.get? q = h.holdings.get? q := by
  rw [markAllIn, NatMap.get?_modify, if_neg hq]

theorem holding_markFolded (hq : q ≠ p) :
    (h.markFolded p).holdings.get? q = h.holdings.get? q := by
  rw [markFolded, NatMap.get?_modify, if_neg hq]

theorem holding_withBet {round : Round} {allIn : Bool} (hq : q ≠ p) :
    (h.withBet p round allIn).holdings.get? q = h.holdings.get? q := by
  cases allIn
  · rfl
  · exact holding_markAllIn (h := { h with round }) hq

end Hand

/-! ## Nothing is done to them -/

namespace Spot
variable {s s' mid : Spot} {p q : PlayerId} {news : List GameEvent} {plan : Plan}

theorem MovesOn.holdings (h : MovesOn s news s') : s'.hand.holdings = s.hand.holdings := by
  induction h with
  | prompt | ended => rfl
  | street _ _ _ _ ih => exact ih

theorem Acts.holding (h : s.Acts plan news mid) (hq : q ≠ plan.player) :
    mid.hand.holdings.get? q = s.hand.holdings.get? q := by
  cases h with
  | check => rfl
  | commit => exact Hand.holding_withBet hq
  | fold => exact Hand.holding_markFolded hq

theorem Departs.holding (h : s.Departs p news mid) (hp : s.hand.Places s.roster)
    (hq : q ∉ s.hand.dealtIn.order) : mid.hand.holdings.get? q = s.hand.holdings.get? q := by
  cases h with
  | absent | folded => rfl
  | standing _ _ _ _ hturn =>
      exact Hand.holding_markFolded (ne_of_mem_of_not_mem (hp.turns_subset hturn) hq).symm

/-- However a hand goes on, whoever is not dealt in holds what they held. -/
theorem Unfolds.holding (h : s.Unfolds news s') (ha : s.hand.Awake s.roster)
    (hq : q ∉ s.hand.dealtIn.order) : s'.hand.holdings.get? q = s.hand.holdings.get? q := by
  cases h with
  | acts hcurrent hacts hon =>
      have hin := ha.places.turns_subset (ha.mem_turns_of_current hcurrent)
      rw [hon.holdings, hacts.holding (ne_of_mem_of_not_mem hin hq).symm]
  | leaves hdeparts hon => rw [hon.holdings, hdeparts.holding ha.places hq]
  | stays hdeparts => exact hdeparts.holding ha.places hq

/-! ## Who was dealt in -/

/-- Whatever happens in a hand, who was dealt in stays as it was. -/
theorem MovesOn.isDealtIn (h : MovesOn s news s') (q : PlayerId) :
    s'.hand.isDealtIn q = s.hand.isDealtIn q := by
  rw [Hand.isDealtIn, h.holdings, Hand.isDealtIn]

theorem Acts.isDealtIn (h : s.Acts plan news mid) (q : PlayerId) :
    mid.hand.isDealtIn q = s.hand.isDealtIn q := by
  cases h with
  | check => rfl
  | commit => exact Hand.isDealtIn_withBet
  | fold => exact Hand.isDealtIn_markFolded

theorem Departs.isDealtIn (h : s.Departs p news mid) (q : PlayerId) :
    mid.hand.isDealtIn q = s.hand.isDealtIn q := by
  cases h with
  | absent | folded => rfl
  | standing => exact Hand.isDealtIn_markFolded

theorem Unfolds.isDealtIn (h : s.Unfolds news s') (q : PlayerId) :
    s'.hand.isDealtIn q = s.hand.isDealtIn q := by
  cases h with
  | acts _ hacts hon => exact (hon.isDealtIn q).trans (hacts.isDealtIn q)
  | leaves hdeparts hon => exact (hon.isDealtIn q).trans (hdeparts.isDealtIn q)
  | stays hdeparts => exact hdeparts.isDealtIn q

theorem isDealtIn_play (hplay : s.InPlay) (moves : List Move) (q : PlayerId) :
    (s.play moves).hand.isDealtIn q = s.hand.isDealtIn q := by
  induction moves generalizing s with
  | nil => rfl
  | cons m rest ih =>
      refine (ih (hplay.move m)).trans ?_
      cases move_cases hplay.atRest m with
      | unfolds _ hunfolds _ hhand => rw [hhand, hunfolds.isDealtIn]
      | same _ hhand => rw [hhand]
      | short _ hfault => exact absurd hfault (hplay.not_faulty m)

end Spot

/-- Whoever has chips when a hand is dealt is dealt in, and nobody else is. -/
theorem Hand.isDealtIn_of_deal {number : Nat} {r r' : Roster} {dealer : PlayerId} {blinds : Blinds}
    {deck : Deck} {ev ev' : Evaluator} {h : Hand} (hv : r.Valid)
    (hdeal : deal number r dealer blinds deck ev = (r', ev', .ok h)) (p : PlayerId) :
    h.isDealtIn p = true ↔ p ∈ r.funded := by
  obtain ⟨pos, news, mid, told, hopened, hon, -, -⟩ := movesOn_of_deal hv hdeal
  let fresh := freshSpot number r dealer pos blinds deck ev
  have hopens : mid.hand.isDealtIn p = fresh.hand.isDealtIn p := by
    cases hopened.opens with
    | blinds => exact isDealtIn_withBet.trans isDealtIn_withBet
  have hsame : h.isDealtIn p = fresh.hand.isDealtIn p := (hon.isDealtIn p).trans hopens
  rw [hsame, ← hopened.order]
  refine ⟨fun hdealt => Classical.byContradiction fun hout => ?_, hopened.dealt.places.dealt p⟩
  -- Whoever was dealt in and is gone has folded, and nobody has yet.
  have hfolded := (hopened.dealt.books.folded p).mpr (hopened.dealt.places.gone p hdealt hout)
  exact NatSet.not_mem_empty p hfolded

namespace Hand.Bystander
variable {h : Hand} {r : Roster} {x : Player} {held : Option Holding}

/-- A bystander stays one while the hand goes on. -/
theorem unfolds {ev : Evaluator} {news : List GameEvent} {s : Spot} (hb : h.Bystander r x held)
    (ha : h.Awake r) (hunfolds : Spot.Unfolds ⟨h, r, ev⟩ news s) :
    s.hand.Bystander s.roster x held where
  out hin := hb.out (hunfolds.moves.remain hin)
  seated := (hunfolds.moves.restacked.get?_eq hb.out).trans hb.seated
  holding := (hunfolds.holding ha hb.out).trans hb.holding

/-- Others may sit down or stand up. -/
theorem reseat {r' : Roster} (hb : h.Bystander r x held) (hsame : r'.get? x.id = r.get? x.id) :
    h.Bystander r' x held :=
  { hb with seated := hsame.trans hb.seated }

/-! ## What they are to the hand -/

theorem isDealtIn_eq (hb : h.Bystander r x held) : h.isDealtIn x.id = held.isSome := by
  rw [isDealtIn, NatMap.contains, hb.holding]

theorem pocket?_eq (hb : h.Bystander r x held) : h.pocket? x.id = held.map (·.pocket) := by
  rw [pocket?, hb.holding]

/-- Whoever holds something is seen as somebody who has folded. -/
theorem isFolded_eq (hb : h.Bystander r x held) (hl : h.Live r) :
    h.isFolded x.id = held.isSome := by
  cases held with
  | none => rw [isFolded, hb.holding]; rfl
  | some _ => exact hl.places.gone x.id hb.isDealtIn_eq hb.out

theorem isAllIn_newcomer (hb : h.Bystander r x none) : h.isAllIn x.id = false := by
  rw [isAllIn, hb.holding]
  rfl

/-- Whoever was never dealt in has nothing in the middle. -/
theorem contribution_newcomer (hb : h.Bystander r x none) (hl : h.Live r) :
    h.round.contribution x.id = 0 := by
  refine Nat.eq_zero_of_not_pos fun hpos => ?_
  have hdealt := hl.books.bettors x.id (NatMap.contains_of_chips_pos hpos)
  rw [hb.isDealtIn_eq] at hdealt
  cases hdealt

/-- An action of a bystander is refused, and why depends on what they hold. -/
theorem validate_eq {ev : Evaluator} (hb : h.Bystander r x held) (hl : h.Live r) (a : Action) :
    Spot.validate ⟨h, r, ev⟩ x.id a =
      .error (if held.isSome then .outOfTurn else .notInHand) := by
  have hphase : (!h.phase.isBetting) = false := by rw [hl.betting]; rfl
  have hturn : h.currentPlayer ≠ some x.id := fun hcur =>
    hb.out (hl.places.turns_subset (hl.mem_turns_of_current hcur))
  cases held with
  | none => simp [Spot.validate, hphase, hb.isDealtIn_eq]
  | some _ => simp [Spot.validate, hphase, hb.isDealtIn_eq, hturn]

end Hand.Bystander
end Holdem
