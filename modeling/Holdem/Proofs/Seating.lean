import Holdem.Table.Roster
import Mathlib.Algebra.BigOperators.Group.List.Basic

/-!
# Seats, players and stacks

A roster is in order when every player has a number of their own and knows their seat. Sitting
down and standing up keep it so and change the chips on the table by the stack that comes or goes.
Writing a stack changes nothing but that stack; a roster got by writing stacks of some players
only is a restacking of the first one.
-/
namespace Holdem.Roster

/-- Every player knows their seat, and no two players share a number. -/
structure Valid (r : Roster) : Prop where
  seated : ∀ i (h : i < r.seats.length), ∀ p ∈ r.seats[i], p.seat = i
  distinct : (r.players.map (·.id)).Nodup

instance (r : Roster) : Decidable r.Valid :=
  decidable_of_iff
    ((∀ i (h : i < r.seats.length), ∀ p ∈ r.seats[i], p.seat = i) ∧
      (r.players.map (·.id)).Nodup)
    ⟨fun h => ⟨h.1, h.2⟩, fun h => ⟨h.seated, h.distinct⟩⟩

/-- Everybody seated. -/
def ids (r : Roster) : List PlayerId := r.players.map (·.id)

/-- The stacks of some players together. -/
def chipsOf (r : Roster) (ids : List PlayerId) : Chips := (ids.filterMap r.stack?).sum

section Lookup
variable {r : Roster} {q : PlayerId} {p : Player} {c : Chips}

theorem get?_eq_some_iff (hv : r.Valid) : r.get? q = some p ↔ p ∈ r.players ∧ p.id = q := by
  constructor
  · intro h
    exact ⟨List.mem_of_find?_eq_some h, by simpa using List.find?_some h⟩
  · rintro ⟨hp, rfl⟩
    have hd := hv.distinct
    unfold get?
    generalize r.players = l at hp hd
    induction l with
    | nil => simp at hp
    | cons a rest ih =>
        rw [List.map_cons, List.nodup_cons] at hd
        rcases List.mem_cons.mp hp with rfl | hp
        · simp
        · have hne : a.id ≠ p.id := fun h => hd.1 (h ▸ List.mem_map_of_mem hp)
          simpa [List.find?_cons, hne] using ih hp hd.2

theorem contains_iff : r.contains q = true ↔ ∃ c, r.stack? q = some c := by
  simp [contains, stack?, Option.isSome_iff_exists]

theorem contains_of_stack (h : r.stack? q = some c) : r.contains q = true :=
  contains_iff.mpr ⟨c, h⟩

theorem mem_ids_iff : q ∈ r.ids ↔ r.contains q = true := by
  simp [ids, contains, get?, List.find?_isSome]

theorem stack?_of_mem (hv : r.Valid) (hp : p ∈ r.players) : r.stack? p.id = some p.stack := by
  rw [stack?, (get?_eq_some_iff hv).mpr ⟨hp, rfl⟩, Option.map_some]

theorem totalChips_eq_chipsOf (hv : r.Valid) : r.totalChips = r.chipsOf r.ids := by
  have h : r.players.map (·.stack) = r.ids.filterMap r.stack? := by
    rw [ids, List.filterMap_map, ← List.filterMap_eq_map]
    exact List.filterMap_congr fun p hp => (stack?_of_mem hv hp).symm
  rw [totalChips, h, chipsOf]

theorem chipsOf_congr {r' : Roster} {ids : List PlayerId}
    (h : ∀ q ∈ ids, r'.stack? q = r.stack? q) : r'.chipsOf ids = r.chipsOf ids := by
  rw [chipsOf, chipsOf, List.filterMap_congr h]

theorem chipsOf_eq_add {ids : List PlayerId} (hn : ids.Nodup) (hq : q ∈ ids) :
    r.chipsOf ids = (r.stack? q).getD 0 + r.chipsOf (ids.filter (· ≠ q)) := by
  induction ids with
  | nil => simp at hq
  | cons a rest ih =>
      have hn' := List.nodup_cons.mp hn
      rcases List.mem_cons.mp hq with rfl | hq
      · have hrest : rest.filter (· ≠ q) = rest := by
          rw [List.filter_eq_self]
          intro x hx
          exact decide_eq_true fun h => hn'.1 (h ▸ hx)
        rw [List.filter_cons_of_neg (by simp), hrest]
        unfold chipsOf
        cases hs : r.stack? q <;> simp [hs]
      · have hne : a ≠ q := fun h => hn'.1 (h ▸ hq)
        have hih := ih hn'.2 hq
        rw [List.filter_cons_of_pos (by simp [hne])]
        unfold chipsOf at hih ⊢
        cases hs : r.stack? a
        · simpa [hs] using hih
        · simp only [List.filterMap_cons, hs, List.sum_cons]
          lia

/-- Players stand in the order of their seats. -/
theorem Valid.players_ascending (hv : r.Valid) : r.players.Pairwise (·.seat < ·.seat) := by
  rw [players, List.pairwise_filterMap, List.pairwise_iff_getElem]
  intro i j hi hj hij x hx y hy
  rw [hv.seated i hi x hx, hv.seated j hj y hy]
  exact hij

theorem mem_funded_iff (hv : r.Valid) :
    q ∈ r.funded ↔ ∃ c, r.stack? q = some c ∧ 0 < c := by
  rw [funded, List.mem_map]
  constructor
  · rintro ⟨p, hp, rfl⟩
    have hp' := List.mem_filter.mp hp
    exact ⟨p.stack, stack?_of_mem hv hp'.1, of_decide_eq_true hp'.2⟩
  · rintro ⟨c, hc, hpos⟩
    obtain ⟨p, hp, rfl⟩ := Option.map_eq_some_iff.mp hc
    have hp' := (get?_eq_some_iff hv).mp hp
    exact ⟨p, List.mem_filter.mpr ⟨hp'.1, decide_eq_true hpos⟩, hp'.2⟩

theorem funded_sublist (r : Roster) : r.funded.Sublist r.ids :=
  List.filter_sublist.map _

theorem funded_nodup (hv : r.Valid) : r.funded.Nodup :=
  (funded_sublist r).nodup hv.distinct

theorem contains_of_mem_funded (h : q ∈ r.funded) : r.contains q = true :=
  mem_ids_iff.mp ((funded_sublist r).subset h)

theorem length_funded_le (r : Roster) : r.funded.length ≤ r.capacity := by
  refine Nat.le_trans (funded_sublist r).length_le ?_
  rw [ids, List.length_map]
  exact List.length_filterMap_le _ _

/-- Whoever has no chips adds none, so the funded players hold all the chips there are. -/
theorem chipsOf_funded (hv : r.Valid) : r.chipsOf r.funded = r.totalChips := by
  have h : r.chipsOf r.funded = ((r.players.filter (0 < ·.stack)).map (·.stack)).sum := by
    rw [chipsOf, funded, List.filterMap_map, ← List.filterMap_eq_map (f := Player.stack)]
    refine congrArg List.sum (List.filterMap_congr fun p hp => ?_)
    exact stack?_of_mem hv (List.mem_filter.mp hp).1
  rw [h, totalChips]
  induction r.players with
  | nil => rfl
  | cons p rest ih =>
      by_cases hp : 0 < p.stack
      · rw [List.filter_cons_of_pos (by simpa using hp), List.map_cons, List.sum_cons, ih,
          List.map_cons, List.sum_cons]
      · have hzero : p.stack = 0 := Nat.eq_zero_of_not_pos hp
        rw [List.filter_cons_of_neg (by simpa using hp), ih, List.map_cons, List.sum_cons, hzero,
          Nat.zero_add]

theorem mem_ids_of_stack (h : r.stack? q = some c) : q ∈ r.ids :=
  mem_ids_iff.mpr (contains_of_stack h)

/-- As long as all chips fit, they are counted exactly. -/
theorem countedChips_eq (h : r.totalChips ≤ maxChips) : r.countedChips = r.totalChips :=
  Nat.mod_eq_of_lt (Nat.lt_succ_of_le h)

theorem stack_le_totalChips (hv : r.Valid) (h : r.stack? q = some c) : c ≤ r.totalChips := by
  have hn : r.ids.Nodup := hv.distinct
  rw [totalChips_eq_chipsOf hv, chipsOf_eq_add hn (mem_ids_of_stack h), h]
  exact Nat.le_add_right _ _

theorem stack_le_chipsOf {ids : List PlayerId} (hn : ids.Nodup) (hq : q ∈ ids) :
    (r.stack? q).getD 0 ≤ r.chipsOf ids := by
  rw [chipsOf_eq_add hn hq]
  exact Nat.le_add_right _ _

/-- Seats that are given up take their chips away. -/
theorem chipsOf_le {r' : Roster} {ids : List PlayerId}
    (h : ∀ q c, r'.stack? q = some c → r.stack? q = some c) : r'.chipsOf ids ≤ r.chipsOf ids := by
  unfold chipsOf
  induction ids with
  | nil => exact Nat.le_refl _
  | cons q rest ih =>
      cases hq : r'.stack? q with
      | none =>
          rw [List.filterMap_cons_none hq]
          cases hq' : r.stack? q with
          | none =>
              rw [List.filterMap_cons_none hq']
              exact ih
          | some c =>
              rw [List.filterMap_cons_some hq', List.sum_cons]
              exact Nat.le_trans ih (Nat.le_add_left _ _)
      | some c =>
          rw [List.filterMap_cons_some hq, List.filterMap_cons_some (h q c hq), List.sum_cons,
            List.sum_cons]
          exact Nat.add_le_add_left ih c

end Lookup

section SetStack
variable {r : Roster} {p q : PlayerId} {c : Chips}

theorem players_setStack :
    (r.setStack p c).players =
      r.players.map fun x => if x.id = p then { x with stack := c } else x := by
  simp only [players, setStack, List.filterMap_map, List.map_filterMap]
  exact List.filterMap_congr fun o _ => by cases o <;> rfl

@[simp] theorem ids_setStack : (r.setStack p c).ids = r.ids := by
  rw [ids, players_setStack, List.map_map, ids]
  apply List.map_congr_left
  intro x _
  simp only [Function.comp]
  split <;> rfl

theorem get?_setStack :
    (r.setStack p c).get? q =
      if q = p then (r.get? q).map fun x => { x with stack := c } else r.get? q := by
  rw [get?, players_setStack, get?, List.find?_map]
  have hfun : ((fun x : Player => decide (x.id = q)) ∘
      fun x => if x.id = p then { x with stack := c } else x) = fun x => decide (x.id = q) := by
    funext x
    simp only [Function.comp]
    split <;> rfl
  rw [hfun]
  cases hx : r.players.find? (fun x => decide (x.id = q)) with
  | none => simp
  | some x =>
      have hid : x.id = q := by simpa using List.find?_some hx
      simp only [Option.map_some, hid]
      split <;> rfl

theorem stack?_setStack :
    (r.setStack p c).stack? q = if q = p then (r.stack? q).map fun _ => c else r.stack? q := by
  rw [stack?, get?_setStack]
  split
  · simp [stack?, Option.map_map, Function.comp_def]
  · rfl

@[simp] theorem contains_setStack : (r.setStack p c).contains q = r.contains q := by
  rw [contains, get?_setStack]
  split
  · simp [contains]
  · rfl

@[simp] theorem capacity_setStack : (r.setStack p c).capacity = r.capacity := by
  simp [capacity, setStack]

theorem Valid.setStack (hv : r.Valid) : (r.setStack p c).Valid := by
  constructor
  · intro i hi x hx
    have hi' : i < r.seats.length := by simpa [Roster.setStack] using hi
    simp only [Roster.setStack, List.getElem_map] at hx
    obtain ⟨y, hy, rfl⟩ := Option.map_eq_some_iff.mp hx
    rw [← hv.seated i hi' y hy]
    split <;> rfl
  · exact (ids_setStack (r := r) (p := p) (c := c) ▸ hv.distinct : (r.setStack p c).ids.Nodup)

/-- Writing a stack changes the chips of some players by what is written less what was there. -/
theorem chipsOf_setStack {ids : List PlayerId} {old : Chips} (hn : ids.Nodup) (hp : p ∈ ids)
    (hs : r.stack? p = some old) : (r.setStack p c).chipsOf ids + old = r.chipsOf ids + c := by
  rw [chipsOf_eq_add hn hp, chipsOf_eq_add (r := r) hn hp, stack?_setStack, if_pos rfl, hs]
  have hrest : (r.setStack p c).chipsOf (ids.filter (· ≠ p)) =
      r.chipsOf (ids.filter (· ≠ p)) := by
    apply chipsOf_congr
    intro q hq
    have hne : q ≠ p := of_decide_eq_true (List.mem_filter.mp hq).2
    rw [stack?_setStack, if_neg hne]
  rw [hrest]
  simp only [Option.map_some, Option.getD_some]
  lia

theorem totalChips_setStack {old : Chips} (hv : r.Valid) (h : r.stack? p = some old) :
    (r.setStack p c).totalChips + old = r.totalChips + c := by
  rw [totalChips_eq_chipsOf hv.setStack, totalChips_eq_chipsOf hv, ids_setStack]
  exact chipsOf_setStack hv.distinct (mem_ids_of_stack h) h

/-- Somebody who gets chips adds them to the chips of those they are among. -/
theorem chipsOf_raise_le {ids : List PlayerId} (hn : ids.Nodup) :
    (r.setStack p ((r.stack? p).getD 0 + c)).chipsOf ids ≤ r.chipsOf ids + c := by
  cases hp : r.stack? p with
  | none =>
      have hsame : ∀ q ∈ ids, (r.setStack p (0 + c)).stack? q = r.stack? q := fun q _ => by
        rw [stack?_setStack]
        split
        · next hqp => rw [hqp, hp]; rfl
        · rfl
      rw [Option.getD_none, chipsOf_congr hsame]
      exact Nat.le_add_right _ _
  | some old =>
      rw [Option.getD_some]
      by_cases hin : p ∈ ids
      · have hset := chipsOf_setStack (c := old + c) hn hin hp
        lia
      · have hsame : ∀ q ∈ ids, (r.setStack p (old + c)).stack? q = r.stack? q := fun q hq => by
          rw [stack?_setStack, if_neg (ne_of_mem_of_not_mem hq hin)]
        rw [chipsOf_congr hsame]
        exact Nat.le_add_right _ _

end SetStack

/-! ## Writing stacks of some players -/

/-- What `r` can become by writing stacks of the players of `ids`. -/
inductive Restacked (ids : List PlayerId) (r : Roster) : Roster → Prop
  | same : Restacked ids r r
  | write {r' : Roster} {p : PlayerId} (c : Chips) :
      Restacked ids r r' → p ∈ ids → Restacked ids r (r'.setStack p c)

namespace Restacked
variable {ids ids' : List PlayerId} {r r' r'' : Roster}

theorem mono (h : Restacked ids r r') (hs : ids ⊆ ids') : Restacked ids' r r' := by
  induction h with
  | same => exact .same
  | write c _ hp ih => exact ih.write c (hs hp)

theorem trans (h : Restacked ids r r') (h' : Restacked ids r' r'') : Restacked ids r r'' := by
  induction h' with
  | same => exact h
  | write c _ hp ih => exact ih.write c hp

theorem ids_eq (h : Restacked ids r r') : r'.ids = r.ids := by
  induction h with
  | same => rfl
  | write c _ _ ih => rw [ids_setStack, ih]

theorem capacity_eq (h : Restacked ids r r') : r'.capacity = r.capacity := by
  induction h with
  | same => rfl
  | write c _ _ ih => rw [capacity_setStack, ih]

theorem valid (h : Restacked ids r r') (hv : r.Valid) : r'.Valid := by
  induction h with
  | same => exact hv
  | write c _ _ ih => exact ih.setStack

theorem get?_eq (h : Restacked ids r r') {q : PlayerId} (hq : q ∉ ids) :
    r'.get? q = r.get? q := by
  induction h with
  | same => rfl
  | write c _ hp ih => rw [get?_setStack, if_neg (ne_of_mem_of_not_mem hp hq).symm, ih]

end Restacked

/-! ## Sitting down and standing up -/

section Change
variable {r : Roster}

/-- What is in a seat stands in one place among the players, and so does what is put there. -/
theorem exists_players_set {i : SeatIndex} {o : Option Player} (h : r.seats[i]? = some o) :
    ∃ before after, r.players = before ++ (o.toList ++ after) ∧
      ∀ o', ({ r with seats := r.seats.set i o' } : Roster).players =
        before ++ (o'.toList ++ after) := by
  obtain ⟨hi, ho⟩ := List.getElem?_eq_some_iff.mp h
  have hlist : ∀ (o' : Option Player) (l : List (Option Player)),
      (o' :: l).filterMap id = o'.toList ++ l.filterMap id := fun o' l => by
    cases o' <;> simp
  refine ⟨(r.seats.take i).filterMap id, (r.seats.drop (i + 1)).filterMap id, ?_, fun o' => ?_⟩
  · rw [players, ← hlist, ← List.filterMap_append, ← ho, List.getElem_cons_drop,
      List.take_append_drop]
  · rw [players, ← hlist, ← List.filterMap_append]
    simp only
    rw [List.set_eq_take_append_cons_drop, if_pos hi]

/-- Where a player sits. -/
theorem exists_seat {p : Player} (hp : p ∈ r.players) :
    ∃ i : SeatIndex, r.seats[i]? = some (some p) := by
  obtain ⟨o, ho, hop⟩ := List.mem_filterMap.mp hp
  obtain ⟨i, hi⟩ := List.mem_iff_getElem?.mp ho
  exact ⟨i, by rw [hi]; exact congrArg some hop⟩

theorem Valid.seat_eq (hv : r.Valid) {p : Player} {i : SeatIndex}
    (h : r.seats[i]? = some (some p)) : p.seat = i := by
  obtain ⟨hi, hp⟩ := List.getElem?_eq_some_iff.mp h
  exact hv.seated i hi p (by rw [hp]; rfl)

/-- A new player in an open seat joins the players there are. -/
theorem players_perm_of_seat {i : SeatIndex} {new : Player} (h : r.seats[i]? = some none) :
    ({ r with seats := r.seats.set i (some new) } : Roster).players.Perm (new :: r.players) := by
  obtain ⟨before, after, hp, hset⟩ := exists_players_set h
  rw [hset, hp]
  exact List.perm_middle

theorem openSeat_spec {wanted : Option SeatIndex} {i : SeatIndex}
    (h : r.openSeat wanted = .ok i) : r.seats[i]? = some none := by
  unfold openSeat at h
  split at h
  · split at h
    · cases h
    · cases h
    · next hs => cases h; exact hs
  · split at h
    · cases h
    · next hs =>
        cases h
        obtain ⟨hi, hnone, _⟩ := List.findIdx?_eq_some_iff_getElem.mp hs
        rw [List.getElem?_eq_getElem hi, Option.isNone_iff_eq_none.mp hnone]

/-- It is the seat that was asked for. -/
theorem openSeat_some {w i : SeatIndex} (h : r.openSeat (some w) = .ok i) : i = w := by
  simp only [openSeat] at h
  split at h
  · cases h
  · cases h
  · cases h
    rfl

/-- Or it is the lowest of those that are open. -/
theorem openSeat_none {i : SeatIndex} (h : r.openSeat none = .ok i) :
    ∀ j < i, r.seats[j]? ≠ some none := by
  simp only [openSeat] at h
  split at h
  · cases h
  · next hs =>
      cases h
      obtain ⟨hi, -, hbelow⟩ := List.findIdx?_eq_some_iff_getElem.mp hs
      intro j hj hopen
      obtain ⟨hlt, hnone⟩ := List.getElem?_eq_some_iff.mp hopen
      exact hbelow j hj (by rw [hnone]; rfl)

theorem Valid.seat (hv : r.Valid) {i : SeatIndex} {new : Player} (h : r.seats[i]? = some none)
    (hseat : new.seat = i) (hnew : r.contains new.id = false) :
    ({ r with seats := r.seats.set i (some new) } : Roster).Valid := by
  constructor
  · intro j hj x hx
    simp only [List.getElem_set] at hx
    split at hx
    · next hij =>
        obtain rfl := Option.some.inj hx
        exact hseat.trans hij
    · exact hv.seated j (by simpa using hj) x hx
  · rw [((players_perm_of_seat h).map _).nodup_iff, List.map_cons, List.nodup_cons]
    refine ⟨fun hm => ?_, hv.distinct⟩
    rw [mem_ids_iff.mp hm] at hnew
    cases hnew

/-- Somebody new sits down in an open seat if all chips, as they are counted, leave room. -/
theorem add_ok {id : PlayerId} {name : String} {stack : Chips} {wanted : Option SeatIndex}
    {seat : SeatIndex} {r' : Roster} (h : r.add id name stack wanted = .ok (seat, r')) :
    r.contains id = false ∧ r.countedChips + stack ≤ maxChips ∧ r.openSeat wanted = .ok seat ∧
      r' = { r with seats := r.seats.set seat (some ⟨id, name, stack, seat⟩) } := by
  unfold add at h
  split at h
  · cases h
  · next hnew =>
      split at h
      · cases h
      · next hfit =>
          cases hs : r.openSeat wanted with
          | error e => simp [hs, Except.map] at h
          | ok i =>
              simp only [hs, Except.map, Except.ok.injEq, Prod.mk.injEq] at h
              obtain ⟨rfl, rfl⟩ := h
              exact ⟨by simpa using hnew, Nat.le_of_not_lt hfit, rfl, rfl⟩

/-- What sitting down comes to. -/
theorem add_spec (hv : r.Valid) {id : PlayerId} {name : String} {stack : Chips}
    {wanted : Option SeatIndex} {seat : SeatIndex} {r' : Roster}
    (h : r.add id name stack wanted = .ok (seat, r')) :
    r.contains id = false ∧ r.countedChips + stack ≤ maxChips ∧ r'.Valid ∧
      r'.capacity = r.capacity ∧ r'.closed = r.closed ∧
      r'.players.Perm (⟨id, name, stack, seat⟩ :: r.players) := by
  obtain ⟨hnew, hfit, hseat, rfl⟩ := add_ok h
  have hopen := openSeat_spec hseat
  exact ⟨hnew, hfit, hv.seat hopen rfl hnew, by simp [capacity], rfl, players_perm_of_seat hopen⟩

/-- Standing up takes one player away and leaves the others as they are. -/
theorem remove_spec (hv : r.Valid) {id : PlayerId} {p : Player} {r' : Roster}
    (h : r.remove id = .ok (p, r')) :
    r.get? id = some p ∧ r'.Valid ∧ r'.capacity = r.capacity ∧ r'.closed = r.closed ∧
      r.players.Perm (p :: r'.players) := by
  unfold remove at h
  split at h
  · cases h
  · next x hx =>
      simp only [Except.ok.injEq, Prod.mk.injEq] at h
      obtain ⟨rfl, rfl⟩ := h
      obtain ⟨i, hi⟩ := exists_seat ((get?_eq_some_iff hv).mp hx).1
      obtain ⟨before, after, hp, hset⟩ := exists_players_set hi
      have hperm : r.players.Perm
          (x :: ({ r with seats := r.seats.set x.seat none } : Roster).players) := by
        rw [hv.seat_eq hi, hset, hp]
        exact List.perm_middle
      refine ⟨hx, ⟨fun j hj y hy => ?_, ?_⟩, by simp [capacity], rfl, hperm⟩
      · simp only [List.getElem_set] at hy
        split at hy
        · cases hy
        · exact hv.seated j (by simpa using hj) y hy
      · exact (List.nodup_cons.mp ((hperm.map (·.id)).nodup_iff.mp hv.distinct)).2

/-- One player more or less makes no difference to the others. -/
theorem get?_of_perm_cons {r' : Roster} {p : Player} {q : PlayerId} (hv : r.Valid) (hv' : r'.Valid)
    (h : r'.players.Perm (p :: r.players)) (hq : q ≠ p.id) : r'.get? q = r.get? q := by
  ext x
  rw [get?_eq_some_iff hv', get?_eq_some_iff hv, h.mem_iff, List.mem_cons]
  constructor
  · rintro ⟨rfl | hx, hid⟩
    · exact absurd hid.symm hq
    · exact ⟨hx, hid⟩
  · rintro ⟨hx, hid⟩
    exact ⟨.inr hx, hid⟩

theorem totalChips_of_perm_cons {r' : Roster} {p : Player}
    (h : r'.players.Perm (p :: r.players)) : r'.totalChips = p.stack + r.totalChips := by
  rw [totalChips, (h.map _).sum_eq, List.map_cons, List.sum_cons, totalChips]

/-- Somebody new makes no difference to the stacks of those already seated. -/
theorem stack?_add {r' : Roster} {p q : PlayerId} {name : String} {stack : Chips}
    {wanted : Option SeatIndex} {seat : SeatIndex} (hv : r.Valid)
    (hadd : r.add p name stack wanted = .ok (seat, r')) (hq : r.contains q = true) :
    r'.stack? q = r.stack? q := by
  obtain ⟨hnew, -, hv', -, -, hperm⟩ := add_spec hv hadd
  have hne : q ≠ p := fun h => by
    rw [h, hnew] at hq
    cases hq
  rw [stack?, get?_of_perm_cons hv hv' hperm hne, stack?]

/-- Nor does anybody who is gone. -/
theorem stack?_remove {r' : Roster} {x : Player} {p q : PlayerId} (hv : r.Valid)
    (hremove : r.remove p = .ok (x, r')) (hq : q ≠ p) : r'.stack? q = r.stack? q := by
  obtain ⟨hget, hv', -, -, hperm⟩ := remove_spec hv hremove
  have hx : x.id = p := ((get?_eq_some_iff hv).mp hget).2
  rw [stack?, ← get?_of_perm_cons hv' hv hperm (hx ▸ hq), stack?]

/-- Standing up at once undoes sitting down. -/
theorem remove_of_add {r' : Roster} {p : PlayerId} {name : String} {stack : Chips}
    {wanted : Option SeatIndex} {seat : SeatIndex} (hv : r.Valid)
    (hadd : r.add p name stack wanted = .ok (seat, r')) :
    r'.remove p = .ok (⟨p, name, stack, seat⟩, r) := by
  obtain ⟨-, -, hv', -, -, hperm⟩ := add_spec hv hadd
  have hget : r'.get? p = some ⟨p, name, stack, seat⟩ :=
    (get?_eq_some_iff hv').mpr ⟨hperm.mem_iff.mpr List.mem_cons_self, rfl⟩
  obtain ⟨-, -, hseat, rfl⟩ := add_ok hadd
  obtain ⟨hi, hopen⟩ := List.getElem?_eq_some_iff.mp (openSeat_spec hseat)
  simp only [remove, hget, List.set_set]
  rw [← hopen, List.set_getElem_self]

end Change

section Built

theorem players_empty (capacity : Nat) : (empty capacity).players = [] := by
  rw [players, empty, List.filterMap_eq_nil_iff]
  intro o ho
  exact (List.mem_replicate.mp ho).2

theorem valid_empty (capacity : Nat) : (empty capacity).Valid where
  seated i hi p hp := by simp [empty] at hp
  distinct := by rw [players_empty]; exact List.nodup_nil

/-- A roster that came about by the operations on rosters. -/
inductive Built : Roster → Prop
  | empty (capacity : Nat) : Built (.empty capacity)
  | added {r r' : Roster} {id : PlayerId} {name : String} {stack : Chips}
      {wanted : Option SeatIndex} {seat : SeatIndex} :
      Built r → r.add id name stack wanted = .ok (seat, r') → Built r'
  | removed {r r' : Roster} {id : PlayerId} {x : Player} :
      Built r → r.remove id = .ok (x, r') → Built r'
  | restacked {r : Roster} (id : PlayerId) (stack : Chips) : Built r → Built (r.setStack id stack)
  | closed {r : Roster} : Built r → Built r.close

theorem Built.valid {r : Roster} (h : r.Built) : r.Valid := by
  induction h with
  | empty capacity => exact valid_empty capacity
  | added _ hadd ih => exact (add_spec ih hadd).2.2.1
  | removed _ hremove ih => exact (remove_spec ih hremove).2.1
  | restacked _ _ _ ih => exact ih.setStack
  | closed _ ih => exact { ih with }

end Built
end Holdem.Roster
