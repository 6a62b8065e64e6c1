import Holdem.Proofs.Hand.Rotation

/-!
# Who is to have the button next

When a hand is dealt the player to the left of the button is to have it next. If they leave, it goes
to whoever is left of them among those still dealt in. So at any time in a hand it goes to the first
player left of the button who is still dealt in.
-/
namespace Holdem

namespace GameEvent

/-- The number of the hand that starts. -/
def startTold : GameEvent → Option Nat
  | .handStarted number .. => some number
  | _ => none

def isJoin : GameEvent → Bool
  | .playerJoined .. => true
  | _ => false

/-- Neither does a hand start, nor does anybody sit down. -/
def Passing (e : GameEvent) : Prop := e.startTold = none ∧ e.isJoin = false

end GameEvent

/-! ## What is told after the start of a hand -/

namespace Spot
variable {s s' mid : Spot} {p : PlayerId} {plan : Plan} {news : List GameEvent}

theorem MovesOn.passing (h : MovesOn s news s') : ∀ e ∈ news, e.Passing := by
  induction h with
  | prompt | ended => exact List.forall_mem_singleton.mpr ⟨rfl, rfl⟩
  | street _ _ _ _ ih => exact List.forall_mem_cons.mpr ⟨⟨rfl, rfl⟩, ih⟩

theorem Acts.passing (h : s.Acts plan news mid) : ∀ e ∈ news, e.Passing := by
  cases h with
  | check | fold => exact List.forall_mem_singleton.mpr ⟨rfl, rfl⟩
  | commit a allIn =>
      refine List.forall_mem_cons.mpr ⟨?_, List.forall_mem_singleton.mpr ⟨rfl, rfl⟩⟩
      cases allIn <;> exact ⟨rfl, rfl⟩

theorem Departs.passing (h : s.Departs p news mid) : ∀ e ∈ news, e.Passing := by
  cases h with
  | absent | folded => exact List.forall_mem_nil _
  | standing => exact List.forall_mem_singleton.mpr ⟨rfl, rfl⟩

theorem Unfolds.passing (h : s.Unfolds news s') : ∀ e ∈ news, e.Passing := by
  cases h with
  | acts _ hacts hon => exact List.forall_mem_append.mpr ⟨hacts.passing, hon.passing⟩
  | leaves hdeparts hon => exact List.forall_mem_append.mpr ⟨hdeparts.passing, hon.passing⟩
  | stays hdeparts => exact hdeparts.passing

end Spot

namespace Hand
variable {h h' : Hand} {seats : List PlayerId} {dealer p : PlayerId}

/-- Of the seats of a hand, going round from the left of the button, the first one of somebody who
is still dealt in is where the button goes next. -/
structure PassesButton (seats : List PlayerId) (dealer : PlayerId) (h : Hand) : Prop where
  dealtIn : h.dealtIn.order.Sublist seats
  next : (leftOf seats dealer).find? (· ∈ h.dealtIn.order) = some h.nextDealer

theorem PassesButton.next_dealtIn (hb : h.PassesButton seats dealer) :
    h.nextDealer ∈ h.dealtIn.order := by
  simpa using List.find?_some hb.next

theorem PassesButton.keeps (hb : h.PassesButton seats dealer) (hk : h.KeepsButton h') :
    h'.PassesButton seats dealer where
  dealtIn := hk.dealtIn ▸ hb.dealtIn
  next := by rw [hk.dealtIn, hk.button, hb.next]

theorem Awake.two_dealtIn {r : Roster} (ha : h.Awake r) : 1 < h.dealtIn.order.length :=
  Nat.lt_of_lt_of_le ha.contested (ha.places.turns_eq ▸ List.length_filter_le _ _)

/-- Somebody who leaves while two are dealt in passes the button on if they were to have it. -/
theorem PassesButton.without (hb : h.PassesButton seats dealer) (hn : seats.Nodup)
    (htwo : 1 < h.dealtIn.order.length) (hw : h.Without h' p) : h'.PassesButton seats dealer := by
  have hmem : ∀ q, q ∈ h'.dealtIn.order ↔ q ∈ h.dealtIn.order ∧ q ≠ p := fun q => by
    rw [hw.dealtIn, List.mem_filter, decide_eq_true_eq]
  refine ⟨hw.dealtIn ▸ List.filter_sublist.trans hb.dealtIn, ?_⟩
  have hfind := find?_of_find? hb.next fun q (hq : decide (q ∈ h'.dealtIn.order) = true) =>
    decide_eq_true ((hmem q).mp (of_decide_eq_true hq)).1
  rw [hfind, hw.button]
  by_cases hp : h.nextDealer = p
  · have hin : p ∈ h.dealtIn.order := hp ▸ hb.next_dealtIn
    have hgone : h.nextDealer ∉ h'.dealtIn.order := fun hstays => ((hmem _).mp hstays).2 hp
    obtain ⟨q, hq, hnext⟩ := TurnOrder.nextTo_of_mem hin
    obtain ⟨rest, hleft⟩ := TurnOrder.leftOf_of_nextTo hin hnext
    have hne := TurnOrder.ne_of_nextTo (hn.sublist hb.dealtIn) htwo hin hnext
    -- Past the place of whoever left, those still dealt in sit as they do at the table.
    have hround : (leftOf (leftOf seats dealer) p).find? (· ∈ h'.dealtIn.order) = some q := by
      rw [leftOf_leftOf hn (hb.dealtIn.subset hin), ← find?_leftOf_of_sublist hb.dealtIn hn hin
        fun r hr => ((hmem r).mp (of_decide_eq_true hr)).1, hleft]
      simp [(hmem q).mpr ⟨hq, hne⟩]
    have hpassed : h.buttonWithout p = q := by
      rw [buttonWithout, if_pos ⟨hp, htwo⟩, hnext]
      rfl
    rw [if_neg (by simpa using hgone), if_pos hin, hp, hround, hpassed]
  · have hstays : h.nextDealer ∈ h'.dealtIn.order := (hmem _).mpr ⟨hb.next_dealtIn, hp⟩
    have hkept : h.buttonWithout p = h.nextDealer := if_neg fun hnext => hp hnext.1
    rw [if_pos (decide_eq_true hstays), hkept, ite_self]

section Deal
variable {number : Nat} {r r' : Roster} {blinds : Blinds} {deck : Deck} {ev ev' : Evaluator}

theorem Opens.told {d mid : Spot} {news : List GameEvent} (h : Opens d news mid) :
    ∃ small big total pots, news =
      [.handStarted d.hand.number d.hand.dealer small big d.hand.order,
        .potChanged total pots] := by
  cases h
  exact ⟨_, _, _, _, rfl⟩

theorem passesButton_of_deal (hv : r.Valid)
    (hdeal : deal number r dealer blinds deck ev = (r', ev', .ok h)) :
    h.PassesButton r.funded dealer := by
  obtain ⟨pos, news, hsetUp, hopened, hadvance⟩ := opened_of_deal hv hdeal
  obtain ⟨told, hon, -, -⟩ := hopened.movesOn hv hadvance
  obtain ⟨-, hdealer, -⟩ := canDeal_of_deal hv hdeal
  obtain ⟨-, -, hhead, -⟩ :=
    positionsIn_clockwise (Roster.funded_nodup hv) hdealer (positions_of_setUp hsetUp)
  have hall : h.dealtIn.order = r.funded := hopened.dealtIn_eq hon
  have hnext : h.nextDealer = pos.nextDealer :=
    (hopened.opens.keepsButton.trans hon.keepsButton).button
  obtain ⟨rest, hleft⟩ := List.head?_eq_some_iff.mp hhead
  have hin : pos.nextDealer ∈ r.funded := mem_leftOf.mp (hleft ▸ List.mem_cons_self)
  refine ⟨hall ▸ List.Sublist.refl _, ?_⟩
  rw [hall, hnext, hleft]
  simp [hin]

theorem dealtIn_of_deal (hv : r.Valid)
    (hdeal : deal number r dealer blinds deck ev = (r', ev', .ok h)) :
    h.dealtIn.order = r.funded := by
  obtain ⟨pos, news, mid, told, hopened, hon, -⟩ := movesOn_of_deal hv hdeal
  exact hopened.dealtIn_eq hon

/-- A hand that is dealt is told of, and then what happens in it. -/
theorem told_of_deal (hv : r.Valid)
    (hdeal : deal number r dealer blinds deck ev = (r', ev', .ok h)) :
    ∃ small big rest,
      h.events = .handStarted number dealer small big (leftOf r.funded dealer) :: rest ∧
        ∀ e ∈ rest, e.Passing := by
  obtain ⟨pos, news, hsetUp, hopened, hadvance⟩ := opened_of_deal hv hdeal
  obtain ⟨told, hon, hevents, -⟩ := hopened.movesOn hv hadvance
  obtain ⟨-, hdealer, -⟩ := canDeal_of_deal hv hdeal
  obtain ⟨horder, -⟩ :=
    positionsIn_clockwise (Roster.funded_nodup hv) hdealer (positions_of_setUp hsetUp)
  obtain ⟨small, big, total, pots, rfl⟩ := hopened.opens.told
  refine ⟨small, big, .potChanged total pots :: told, ?_, ?_⟩
  · rw [← horder]
    exact hevents
  · exact List.forall_mem_cons.mpr ⟨⟨rfl, rfl⟩, hon.passing⟩

end Deal

end Hand
end Holdem
