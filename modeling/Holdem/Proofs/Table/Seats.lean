import Holdem.Proofs.Clockwise
import Holdem.Proofs.Seating
import Mathlib.Data.List.Find

/-!
# Going round the seats

The button is passed on by going clockwise from a seat to the first player with chips. Players who
stand up leave gaps, and players who go broke are passed over, so that everybody else is still met
in the same order. From the seat of a player that order is the one of those to their left.
-/
namespace Holdem

namespace Roster

/-- The player in a seat, counting the seats on and on around the table. -/
def playerAt (r : Roster) (i : Nat) : Option Player := r.seats[i % r.capacity]?.join

/-- The first player with chips going clockwise from the seat after `seat`. Whoever sits in a seat
that is passed before has none. -/
def FirstFunded (r : Roster) (seat : SeatIndex) (p : PlayerId) : Prop :=
  ∃ k x, r.playerAt (seat + 1 + k) = some x ∧ x.id = p ∧ 0 < x.stack ∧
    ∀ j < k, ∀ y, r.playerAt (seat + 1 + j) = some y → y.stack = 0

/-- Who sits in which seat. -/
def places (r : Roster) : List (Option PlayerId) := r.seats.map (Option.map (·.id))

/-- Everybody seated, going clockwise from the seat after `seat`. -/
def clockwise (r : Roster) (seat : SeatIndex) : List PlayerId :=
  (r.places.rotate (seat + 1)).filterMap id

/-- Nobody has sat down since. Some may have stood up. -/
structure Thinned (r r' : Roster) : Prop where
  length : r'.places.length = r.places.length
  stayed : ∀ (i : Nat) (p : PlayerId), r'.places[i]? = some (some p) → r.places[i]? = some (some p)

section Round
variable {r r' r'' : Roster} {seat : SeatIndex} {p : PlayerId} {x : Player}

/-- Starting after a seat and coming back to it is to rotate the seats. -/
theorem fundedAfter_eq_rotate : r.fundedAfter seat =
    (((r.seats.rotate (seat + 1)).filterMap id).find? (0 < ·.stack)).map (·.id) := by
  rw [List.rotate_eq_drop_append_take_mod]
  rfl

theorem firstFunded_of_fundedAfter (h : r.fundedAfter seat = some p) : r.FirstFunded seat p := by
  simp only [fundedAfter_eq_rotate, List.find?_filterMap] at h
  obtain ⟨x, hx, hid⟩ := Option.map_eq_some_iff.mp h
  obtain ⟨o, ho, hox⟩ := Option.bind_eq_some_iff.mp hx
  obtain rfl : o = some x := hox
  obtain ⟨hpos, k, hk, hkx, hbefore⟩ := List.find?_eq_some_iff_getElem.mp ho
  have hseat : ∀ j, j < r.seats.length →
      r.playerAt (seat + 1 + j) = ((r.seats.rotate (seat + 1))[j]?).join := fun j hj => by
    rw [playerAt, List.getElem?_rotate hj, Nat.add_comm j, capacity]
  have hlen := List.length_rotate r.seats (seat + 1)
  refine ⟨k, x, ?_, hid, by simpa using hpos, fun j hj y hy => ?_⟩
  · rw [hseat k (hlen ▸ hk), List.getElem?_eq_getElem hk, hkx]
    rfl
  · have hlt : j < (r.seats.rotate (seat + 1)).length := Nat.lt_trans hj hk
    rw [hseat j (hlen ▸ hlt), List.getElem?_eq_getElem hlt] at hy
    have hpassed := hbefore j hj
    rw [show (r.seats.rotate (seat + 1))[j] = some y from hy] at hpassed
    simpa using hpassed

theorem places_filterMap : r.places.filterMap id = r.ids := by
  rw [places, List.filterMap_map, ids, players, List.map_filterMap]
  rfl

theorem mem_clockwise : p ∈ r.clockwise seat ↔ p ∈ r.ids := by
  rw [← places_filterMap, clockwise, List.mem_filterMap, List.mem_filterMap]
  exact exists_congr fun o => and_congr_left fun _ => List.mem_rotate

/-- The search for a player with chips goes round the seats. -/
theorem fundedAfter_eq (hv : r.Valid) :
    r.fundedAfter seat = (r.clockwise seat).find? (· ∈ r.funded) := by
  have hids : r.clockwise seat = ((r.seats.rotate (seat + 1)).filterMap id).map (·.id) := by
    rw [clockwise, places, ← List.map_rotate, List.filterMap_map, List.map_filterMap]
    rfl
  rw [hids, List.find?_map, fundedAfter_eq_rotate]
  refine congrArg (Option.map Player.id) (List.find?_congr fun x hx => ?_)
  obtain ⟨o, ho, hox⟩ := List.mem_filterMap.mp hx
  have hplayer : x ∈ r.players :=
    List.mem_filterMap.mpr ⟨o, List.mem_rotate.mp ho, hox⟩
  simp only [Function.comp, decide_eq_decide, mem_funded_iff hv, stack?_of_mem hv hplayer]
  simp

theorem fundedAfter_spec (hv : r.Valid) (h : r.funded ≠ []) :
    ∃ p ∈ r.funded, r.fundedAfter seat = some p := by
  obtain ⟨q, hq⟩ := List.exists_mem_of_ne_nil _ h
  have hmet : q ∈ r.clockwise seat := mem_clockwise.mpr ((funded_sublist r).subset hq)
  have hfound : ((r.clockwise seat).find? (· ∈ r.funded)).isSome := by
    rw [List.find?_isSome]
    exact ⟨q, hmet, decide_eq_true hq⟩
  obtain ⟨p, hp⟩ := Option.isSome_iff_exists.mp hfound
  have hfunded := List.find?_some hp
  exact ⟨p, of_decide_eq_true hfunded, (fundedAfter_eq hv).trans hp⟩

/-- From the seat after somebody's everybody is met who sits left of them. -/
theorem clockwise_seat (hv : r.Valid) (hx : x ∈ r.players) :
    r.clockwise x.seat = leftOf r.ids x.id := by
  obtain ⟨i, hi⟩ := exists_seat hx
  obtain rfl : x.seat = i := hv.seat_eq hi
  have hplace : r.places[x.seat]? = some (some x.id) := by
    rw [places, List.getElem?_map, hi]
    rfl
  obtain ⟨hlt, hx⟩ := List.getElem?_eq_some_iff.mp hplace
  have hids : r.ids = (r.places.take x.seat).filterMap id ++
      x.id :: (r.places.drop (x.seat + 1)).filterMap id := by
    rw [← places_filterMap]
    conv_lhs => rw [← List.take_append_drop x.seat r.places, List.drop_eq_getElem_cons hlt, hx]
    exact List.filterMap_append
  have hn : r.ids.Nodup := hv.distinct
  have hout : x.id ∉ (r.places.take x.seat).filterMap id := fun hin => by
    rw [hids] at hn
    exact (List.nodup_append.mp hn).2.2 _ hin _ List.mem_cons_self rfl
  rw [hids, leftOf_append_cons hout, clockwise, List.rotate_eq_drop_append_take hlt,
    List.take_succ_eq_append_getElem hlt, hx]
  simp

/-! ## Standing up -/

theorem Thinned.refl (r : Roster) : r.Thinned r := ⟨rfl, fun _ _ => id⟩

theorem Thinned.trans (h : r.Thinned r') (h' : r'.Thinned r'') : r.Thinned r'' :=
  ⟨h'.length.trans h.length, fun i p hp => h.stayed i p (h'.stayed i p hp)⟩

theorem Thinned.capacity_eq (h : r.Thinned r') : r'.capacity = r.capacity := by
  simpa [places, capacity] using h.length

theorem places_setStack {c : Chips} : (r.setStack p c).places = r.places := by
  simp only [places, setStack, List.map_map]
  refine List.map_congr_left fun o _ => ?_
  cases o with
  | none => rfl
  | some x =>
      simp only [Function.comp, Option.map_some]
      split <;> rfl

theorem Restacked.places_eq {ids : List PlayerId} (h : r.Restacked ids r') :
    r'.places = r.places := by
  induction h with
  | same => rfl
  | write c _ _ ih => exact places_setStack.trans ih

theorem Restacked.thinned {ids : List PlayerId} (h : r.Restacked ids r') : r.Thinned r' :=
  ⟨by rw [h.places_eq], fun _ _ hp => h.places_eq ▸ hp⟩

theorem thinned_of_remove (h : r.remove p = .ok (x, r')) : r.Thinned r' := by
  unfold remove at h
  split at h
  · cases h
  · next y hy =>
      simp only [Except.ok.injEq, Prod.mk.injEq] at h
      obtain ⟨-, rfl⟩ := h
      refine ⟨by simp [places], fun i q hq => ?_⟩
      simp only [places, List.getElem?_map, List.getElem?_set] at hq ⊢
      split at hq
      · split at hq <;> simp at hq
      · exact hq

/-- Whoever is still seated sits where they did. -/
theorem Thinned.exists_player (h : r.Thinned r') (hv' : r'.Valid) (hv : r.Valid)
    (hx : x ∈ r'.players) : ∃ y ∈ r.players, y.id = x.id ∧ y.seat = x.seat := by
  obtain ⟨i, hi⟩ := exists_seat hx
  obtain rfl : x.seat = i := hv'.seat_eq hi
  have hplace := h.stayed x.seat x.id (by rw [places, List.getElem?_map, hi]; rfl)
  rw [places, List.getElem?_map] at hplace
  obtain ⟨o, ho, hoy⟩ := Option.map_eq_some_iff.mp hplace
  obtain ⟨y, rfl, hid⟩ := Option.map_eq_some_iff.mp hoy
  exact ⟨y, List.mem_filterMap.mpr ⟨_, List.mem_of_getElem? ho, rfl⟩, hid, hv.seat_eq ho⟩

/-- What is left of a list after some of its places were emptied is in the same order. -/
theorem filterMap_sublist {l l' : List (Option PlayerId)} (hlen : l'.length = l.length)
    (hstay : ∀ (i : Nat) (p : PlayerId), l'[i]? = some (some p) → l[i]? = some (some p)) :
    (l'.filterMap id).Sublist (l.filterMap id) := by
  induction l generalizing l' with
  | nil => rw [List.length_eq_zero_iff.mp hlen]
  | cons o l ih =>
      match l', hlen with
      | o' :: l', hlen =>
          have hrest := ih (Nat.succ.inj hlen) fun i p hp => hstay (i + 1) p hp
          cases o' with
          | some p =>
              obtain rfl : o = some p := Option.some.inj (hstay 0 p rfl)
              exact hrest.cons_cons p
          | none =>
              cases o with
              | none => exact hrest
              | some p => exact hrest.cons p

theorem Thinned.clockwise (h : r.Thinned r') (seat : SeatIndex) :
    (r'.clockwise seat).Sublist (r.clockwise seat) := by
  refine filterMap_sublist ?_ fun i p hp => ?_
  · rw [List.length_rotate, List.length_rotate, h.length]
  · have hi : i < r'.places.length := by
      rw [← List.length_rotate r'.places (seat + 1)]
      exact (List.getElem?_eq_some_iff.mp hp).1
    rw [List.getElem?_rotate hi] at hp
    rw [List.getElem?_rotate (h.length ▸ hi), ← h.length]
    exact h.stayed _ p hp

/-- To whoever looks for a player with chips from the seat of somebody who had some, it makes no
difference that others have stood up or gone broke since. -/
theorem Thinned.fundedAfter (h : r.Thinned r') (hv : r.Valid) (hv' : r'.Valid)
    (hfunded : ∀ p ∈ r'.funded, p ∈ r.funded) (hx : x ∈ r.players) (hpos : x.id ∈ r.funded) :
    r'.fundedAfter x.seat = (leftOf r.funded x.id).find? (· ∈ r'.funded) := by
  have hround := clockwise_seat hv hx
  have hn : (r.clockwise x.seat).Nodup := hround ▸ List.nodup_rotate.mpr hv.distinct
  calc r'.fundedAfter x.seat
      = (r'.clockwise x.seat).find? (· ∈ r'.funded) := fundedAfter_eq hv'
    _ = ((r.clockwise x.seat).filter (· ∈ r'.clockwise x.seat)).find? (· ∈ r'.funded) := by
        rw [← eq_filter_of_sublist (h.clockwise x.seat) hn]
    _ = (r.clockwise x.seat).find? (· ∈ r'.funded) := by
        refine find?_filter_of_imp _ fun p hp => decide_eq_true (mem_clockwise.mpr ?_)
        exact (funded_sublist r').subset (of_decide_eq_true hp)
    _ = (leftOf r.ids x.id).find? (· ∈ r'.funded) := by rw [hround]
    _ = (leftOf r.funded x.id).find? (· ∈ r'.funded) :=
        (find?_leftOf_of_sublist (funded_sublist r) hv.distinct hpos fun p hp =>
          hfunded p (of_decide_eq_true hp)).symm

/-! ## Who has chips -/

/-- Only stacks of the hand change. -/
theorem Restacked.mem_funded {ids : List PlayerId} (h : r.Restacked ids r') (hv : r.Valid)
    (hp : p ∉ ids) : p ∈ r'.funded ↔ p ∈ r.funded := by
  rw [mem_funded_iff (h.valid hv), mem_funded_iff hv, stack?, h.get?_eq hp, stack?]

theorem Restacked.contains_eq {ids : List PlayerId} (h : r.Restacked ids r') :
    r'.contains p = r.contains p := by
  rw [Bool.eq_iff_iff, ← mem_ids_iff, ← mem_ids_iff, h.ids_eq]

/-- Whoever has stood up is gone. -/
theorem not_mem_ids_remove (hv : r.Valid) (h : r.remove p = .ok (x, r')) : p ∉ r'.ids := by
  obtain ⟨hget, -, -, -, hperm⟩ := remove_spec hv h
  have hx : x.id = p := ((get?_eq_some_iff hv).mp hget).2
  have hn : (x.id :: r'.ids).Nodup := (hperm.map Player.id).nodup_iff.mp hv.distinct
  exact hx ▸ (List.nodup_cons.mp hn).1

theorem contains_remove (hv : r.Valid) (h : r.remove p = .ok (x, r')) {q : PlayerId}
    (hq : q ≠ p) : r'.contains q = r.contains q := by
  obtain ⟨hget, hv', -, -, hperm⟩ := remove_spec hv h
  have hx : x.id = p := ((get?_eq_some_iff hv).mp hget).2
  rw [contains, contains, get?_of_perm_cons hv' hv hperm (hx ▸ hq)]

/-- Of those who stay, whoever has chips had them. -/
theorem mem_funded_remove (hv : r.Valid) (h : r.remove p = .ok (x, r')) {q : PlayerId} :
    q ∈ r'.funded ↔ q ∈ r.funded ∧ q ≠ p := by
  have hv' := (remove_spec hv h).2.1
  by_cases hq : q = p
  · have hgone : q ∉ r'.funded := fun hin =>
      not_mem_ids_remove hv h (hq ▸ (funded_sublist r').subset hin)
    exact iff_of_false hgone fun hin => hin.2 hq
  · rw [mem_funded_iff hv', mem_funded_iff hv, stack?_remove hv h hq]
    simp [hq]

end Round
end Roster

end Holdem
