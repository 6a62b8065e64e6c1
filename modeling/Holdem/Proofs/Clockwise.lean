import Holdem.Proofs.Turns
import Mathlib.Data.List.Rotate

/-!
# Clockwise round the table

Going round from the left of a player passes everybody else first and that player last. Turns pass
the same way. The players of a turn order sit as they do at the table, with gaps where others gave
up, so that going round the order or round the table finds the same player first among those who are
looked for.
-/
namespace Holdem

/-- Once around, from the left of `p` to `p`. -/
def leftOf (seats : List PlayerId) (p : PlayerId) : List PlayerId := seats.rotate (seats.idxOf p + 1)

section Round
variable {seats : List PlayerId} {p q : PlayerId}

theorem mem_leftOf : q ∈ leftOf seats p ↔ q ∈ seats := List.mem_rotate

/-- The seats after a player come first, then those before. -/
theorem leftOf_append_cons {before after : List PlayerId} (hp : p ∉ before) :
    leftOf (before ++ p :: after) p = after ++ (before ++ [p]) := by
  have hplace : (before ++ p :: after).idxOf p + 1 = (before ++ [p]).length := by
    rw [List.idxOf_append_of_notMem hp, List.idxOf_cons_self, List.length_append]
    rfl
  have hsplit : before ++ p :: after = (before ++ [p]) ++ after := by simp
  rw [leftOf, hplace, hsplit, List.rotate_append_length_eq]

/-- Those who are left at the table are passed in the same order. -/
theorem leftOf_filter {kept : PlayerId → Bool} (hp : p ∈ seats) (hkept : kept p = true) :
    leftOf (seats.filter kept) p = (leftOf seats p).filter kept := by
  obtain ⟨before, after, rfl, hbefore⟩ := List.eq_append_cons_of_mem hp
  have hgone : p ∉ before.filter kept := fun h => hbefore (List.mem_filter.mp h).1
  rw [List.filter_append, List.filter_cons_of_pos hkept, leftOf_append_cons hgone,
    leftOf_append_cons hbefore]
  simp [hkept]

/-- It makes no difference where a round is cut to list the seats. -/
theorem leftOf_append_comm {l l' : List PlayerId} (hn : (l ++ l').Nodup) (hp : p ∈ l ++ l') :
    leftOf (l ++ l') p = leftOf (l' ++ l) p := by
  have hmeet {x : List PlayerId} {y : List PlayerId} (hn : (x ++ y).Nodup) (hp : p ∈ x) :
      leftOf (x ++ y) p = leftOf (y ++ x) p := by
    obtain ⟨before, after, rfl, hbefore⟩ := List.eq_append_cons_of_mem hp
    have hout : p ∉ y ++ before := by
      simp only [List.mem_append, not_or]
      exact ⟨fun h => (List.nodup_append.mp hn).2.2 p hp p h rfl, hbefore⟩
    have hsplit : y ++ (before ++ p :: after) = (y ++ before) ++ p :: after := by simp
    rw [List.append_assoc, List.cons_append, leftOf_append_cons hbefore, hsplit,
      leftOf_append_cons hout]
    simp
  rcases List.mem_append.mp hp with hp | hp
  · exact hmeet hn hp
  · exact (hmeet (List.nodup_append_comm.mp hn) hp).symm

theorem leftOf_leftOf (hn : seats.Nodup) (hq : q ∈ seats) :
    leftOf (leftOf seats p) q = leftOf seats q := by
  have hcut : leftOf seats p = _ := List.rotate_eq_drop_append_take_mod
  have hseats := List.take_append_drop ((seats.idxOf p + 1) % seats.length) seats
  rw [hcut, ← leftOf_append_comm (hseats.symm ▸ hn) (hseats.symm ▸ hq), hseats]

/-- Whoever is looked for is found first among those left, if none of the others is looked for. -/
theorem find?_filter_of_imp {kept wanted : PlayerId → Bool} (l : List PlayerId)
    (h : ∀ q, wanted q = true → kept q = true) : (l.filter kept).find? wanted = l.find? wanted := by
  rw [List.find?_filter]
  congr 1
  funext q
  cases hwanted : wanted q with
  | false => simp
  | true => simp [h q hwanted]

/-- Some of the seats, in their order, are those of them that are taken. -/
theorem eq_filter_of_sublist {l : List PlayerId} (h : l.Sublist seats) (hn : seats.Nodup) :
    l = seats.filter (· ∈ l) := by
  induction h with
  | slnil => rfl
  | @cons l seats q hsub ih =>
      obtain ⟨hq, hn⟩ := List.nodup_cons.mp hn
      rw [List.filter_cons_of_neg (by simpa using fun h => hq (hsub.subset h))]
      exact ih hn
  | @cons_cons l seats q hsub ih =>
      obtain ⟨hq, hn⟩ := List.nodup_cons.mp hn
      rw [List.filter_cons_of_pos (by simp)]
      congr 1
      refine (ih hn).trans (List.filter_congr fun x hx => ?_)
      have hne : x ≠ q := ne_of_mem_of_not_mem hx hq
      simp [hne]

/-- It makes no difference to somebody who goes round the table looking for a player whether they
also pass those who can not be meant. -/
theorem find?_leftOf_of_sublist {l : List PlayerId} {wanted : PlayerId → Bool}
    (h : l.Sublist seats) (hn : seats.Nodup) (hp : p ∈ l)
    (hwanted : ∀ q, wanted q = true → q ∈ l) :
    (leftOf l p).find? wanted = (leftOf seats p).find? wanted := by
  have hsame : leftOf l p = (leftOf seats p).filter (· ∈ l) := by
    conv_lhs => rw [eq_filter_of_sublist h hn]
    exact leftOf_filter (h.subset hp) (decide_eq_true hp)
  rw [hsame]
  exact find?_filter_of_imp _ fun q hq => decide_eq_true (hwanted q hq)

/-- Somebody who looks for fewer players than were found first is done there, or goes on from there
around the table. -/
theorem find?_of_find? {kept wanted : PlayerId → Bool} (hfind : seats.find? kept = some p)
    (h : ∀ q, wanted q = true → kept q = true) :
    seats.find? wanted = if wanted p then some p else (leftOf seats p).find? wanted := by
  obtain ⟨hkept, before, after, rfl, hbefore⟩ := List.find?_eq_some_iff_append.mp hfind
  have hout : ∀ q ∈ before, wanted q = false := fun q hq =>
    Bool.eq_false_iff.mpr fun hwanted => by simpa [h q hwanted] using hbefore q hq
  have hnone : before.find? wanted = none := List.find?_eq_none.mpr fun q hq => by simp [hout q hq]
  have hp : p ∉ before := fun hp => by simpa [hkept] using hbefore p hp
  rw [leftOf_append_cons hp, List.find?_append, hnone, Option.none_or, List.find?_append,
    List.find?_append, hnone]
  cases hwanted : wanted p <;> simp [hwanted]

/-- Whoever looks for a player from the left of somebody does not find that player as long as
anybody else is looked for. -/
theorem ne_of_find?_leftOf {wanted : PlayerId → Bool} {r : PlayerId} (hn : seats.Nodup)
    (hp : p ∈ seats) (hfind : (leftOf seats p).find? wanted = some q) (hr : r ∈ seats)
    (hne : r ≠ p) (hwanted : wanted r = true) : q ≠ p := by
  obtain ⟨before, after, rfl, hbefore⟩ := List.eq_append_cons_of_mem hp
  have hafter : p ∉ after := (List.nodup_cons.mp (List.nodup_append.mp hn).2.1).1
  have hin : r ∈ after ++ before := by
    simp only [List.mem_append, List.mem_cons] at hr ⊢
    exact hr.elim .inr fun h => .inl (h.resolve_left hne)
  obtain ⟨y, hy⟩ := Option.isSome_iff_exists.mp (List.find?_isSome.mpr ⟨r, hin, hwanted⟩)
  rw [leftOf_append_cons hbefore, ← List.append_assoc, List.find?_append, hy] at hfind
  cases hfind
  rintro rfl
  exact (List.mem_append.mp (List.mem_of_find?_eq_some hy)).elim hafter hbefore

end Round

namespace TurnOrder
variable {t t' : TurnOrder} {p q : PlayerId}

theorem lap_eq_rotate (t : TurnOrder) : t.lap = t.order.rotate t.current :=
  List.rotate_eq_drop_append_take_mod.symm

theorem place_eq_idxOf (hp : p ∈ t.order) : t.place p = .ok (t.order.idxOf p) := by
  obtain ⟨i, hi, -⟩ := place_of_mem hp
  rw [hi]
  unfold place at hi
  split at hi
  · next j hj =>
      cases hi
      rw [List.findIdx?_eq_some_iff_findIdx_eq] at hj
      rw [← hj.2]
      rfl
  · cases hi

theorem idxOf_now (hn : t.order.Nodup) (hnow : t.now = .ok p) : t.order.idxOf p = t.current := by
  obtain ⟨hlt, hp⟩ := List.getElem?_eq_some_iff.mp (now_eq_ok_iff.mp hnow)
  rw [← hp]
  exact hn.idxOf_getElem _ hlt

/-- The next turn begins the round to the left of whoever had the turn. -/
theorem lap_next (hn : t.order.Nodup) (hnow : t.now = .ok p) (hnext : t.next = .ok (q, t')) :
    t'.lap = leftOf t.order p := by
  have hpassed : t' = { t with current := t.after t.current } := by
    unfold next moveTo at hnext
    cases hplayer : t.player (t.after t.current) with
    | error e => rw [hplayer] at hnext; cases hnext
    | ok r => rw [hplayer] at hnext; cases hnext; rfl
  rw [hpassed, lap_eq_rotate, leftOf, idxOf_now hn hnow]
  exact List.rotate_mod _ _

/-- When the player on turn is taken out, the round goes on without them. -/
theorem lap_remove (hn : t.order.Nodup) (hnow : t.now = .ok p) (hremove : t.remove p = .ok t') :
    t'.lap = (leftOf t.order p).filter (· ≠ p) := by
  have hp : p ∈ t.order := List.mem_of_getElem? (now_eq_ok_iff.mp hnow)
  have hplace := idxOf_now hn hnow
  obtain ⟨before, after, horder, hbefore⟩ := List.eq_append_cons_of_mem hp
  have hcurrent : t.current = before.length := by
    rw [← hplace, horder, List.idxOf_append_of_notMem hbefore, List.idxOf_cons_self, Nat.add_zero]
  have herase : t.order.eraseIdx before.length = before ++ after := by
    rw [horder, List.eraseIdx_append_of_length_le (Nat.le_refl _), Nat.sub_self]
    rfl
  have hleft : (leftOf t.order p).filter (· ≠ p) = after ++ before := by
    rw [horder] at hn ⊢
    have hafter : p ∉ after := (List.nodup_cons.mp (List.nodup_append.mp hn).2.1).1
    have hkept : ∀ {l : List PlayerId}, p ∉ l → l.filter (· ≠ p) = l := fun hl =>
      List.filter_eq_self.mpr fun q hq => decide_eq_true (ne_of_mem_of_not_mem hq hl)
    rw [leftOf_append_cons hbefore, List.filter_append, List.filter_append, hkept hafter,
      hkept hbefore]
    simp
  have hgone : t' =
      { order := before ++ after
        current := if (before ++ after).length ≤ before.length then 0 else before.length } := by
    rw [remove, place_eq_idxOf hp, hplace, hcurrent] at hremove
    simp only [Except.map, herase, Nat.lt_irrefl, if_false, Except.ok.injEq] at hremove
    exact hremove.symm
  rw [hgone, lap_eq_rotate, hleft]
  -- If the last of the order gave up, the round begins anew.
  split
  · next hlast =>
      rw [List.length_append] at hlast
      have hnil : after = [] := List.length_eq_zero_iff.mp (by omega)
      simp [hnil]
  · exact List.rotate_append_length_eq before after

/-- The turn is given to whoever comes first in the round. -/
theorem lap_setCurrent (hn : t.order.Nodup) {l : List PlayerId} {i : Nat}
    (hround : t.order.rotate i = q :: l) (hset : t.setCurrent q = .ok t') : t'.lap = q :: l := by
  have hpos : 0 < t.order.length := by
    rw [← List.length_rotate t.order i, hround]
    exact Nat.zero_lt_succ _
  have hmod : i % t.order.length < t.order.length := Nat.mod_lt _ hpos
  have hfirst : t.order[i % t.order.length] = q := by
    have hhead : (t.order.rotate (i % t.order.length)).head? = some q := by
      rw [List.rotate_mod, hround]
      rfl
    rw [List.head?_rotate hmod, List.getElem?_eq_getElem hmod] at hhead
    exact Option.some_inj.mp hhead
  have hplace : t.order.idxOf q = i % t.order.length := by
    rw [← hfirst]
    exact hn.idxOf_getElem _ hmod
  have hq : q ∈ t.order := hfirst ▸ List.getElem_mem hmod
  rw [setCurrent, place_eq_idxOf hq, hplace] at hset
  cases hset
  rw [lap_eq_rotate, List.rotate_mod, hround]

/-- The round of whoever is given the turn begins with them. -/
theorem head_lap_setCurrent (hn : t.order.Nodup) (hq : q ∈ t.order)
    (hset : t.setCurrent q = .ok t') : ∃ rest, t'.lap = q :: rest := by
  obtain ⟨before, after, horder, hbefore⟩ := List.eq_append_cons_of_mem hq
  refine ⟨after ++ before, lap_setCurrent hn (i := before.length) ?_ hset⟩
  rw [horder, List.rotate_append_length_eq]
  rfl

/-- The player next to another is the first to their left. -/
theorem leftOf_of_nextTo (hp : p ∈ t.order) (hnext : t.nextTo p = .ok q) :
    ∃ rest, leftOf t.order p = q :: rest := by
  have hpos : 0 < t.order.length := List.length_pos_of_mem hp
  have hq : t.order[(t.order.idxOf p + 1) % t.order.length]? = some q := by
    rw [nextTo, place_eq_idxOf hp] at hnext
    exact now_eq_ok_iff (t := { t with current := t.after (t.order.idxOf p) }).mp hnext
  have hhead : (leftOf t.order p).head? = some q := by
    rw [leftOf, ← List.rotate_mod, List.head?_rotate (Nat.mod_lt _ hpos), hq]
  obtain ⟨rest, hrest⟩ := List.head?_eq_some_iff.mp hhead
  exact ⟨rest, hrest⟩

/-- With two players or more nobody is next to themselves. -/
theorem ne_of_nextTo (hn : t.order.Nodup) (htwo : 1 < t.order.length) (hp : p ∈ t.order)
    (hnext : t.nextTo p = .ok q) : q ≠ p := by
  obtain ⟨rest, hrest⟩ := leftOf_of_nextTo hp hnext
  obtain ⟨before, after, horder, hbefore⟩ := List.eq_append_cons_of_mem hp
  rw [horder] at hrest hn htwo
  have hafter : p ∉ after := (List.nodup_cons.mp (List.nodup_append.mp hn).2.1).1
  rw [leftOf_append_cons hbefore, ← List.append_assoc] at hrest
  have hothers : after ++ before ≠ [] := fun hnil => by
    obtain ⟨rfl, rfl⟩ := List.append_eq_nil_iff.mp hnil
    exact Nat.lt_irrefl 1 htwo
  have hq : q ∈ after ++ before := by
    obtain ⟨x, l, hl⟩ := List.exists_cons_of_ne_nil hothers
    rw [hl] at hrest ⊢
    cases hrest
    exact List.mem_cons_self
  rintro rfl
  exact (List.mem_append.mp hq).elim hafter hbefore

end TurnOrder
end Holdem
