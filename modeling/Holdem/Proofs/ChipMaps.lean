import Holdem.Pot
import Mathlib.Algebra.BigOperators.Group.List.Basic
import Mathlib.Data.List.MinMax
import Mathlib.Order.Nat

/-!
# Chips kept by player

What the entries of a map have to do with looking a key up, and how the chips of a map of chips
add up. Entries stand in ascending order, so a key has at most one of them.
-/
namespace Holdem.NatMap

universe u

section Entries
variable {α : Type u}

theorem find_eq_none {k : Nat} {l : List (Nat × α)} (h : ∀ e ∈ l, e.1 ≠ k) : find k l = none := by
  induction l with
  | nil => rfl
  | cons e rest ih =>
      have hk : k ≠ e.1 := fun hk => h e List.mem_cons_self hk.symm
      rw [find, if_neg hk]
      exact ih fun x hx => h x (List.mem_cons_of_mem _ hx)

theorem mem_iff_find {k : Nat} {a : α} {l : List (Nat × α)}
    (h : l.Pairwise (fun a b => a.1 < b.1)) : (k, a) ∈ l ↔ find k l = some a := by
  induction l with
  | nil => simp [find]
  | cons e rest ih =>
      obtain ⟨j, b⟩ := e
      have hj := List.pairwise_cons.mp h
      simp only [find, List.mem_cons, Prod.mk.injEq]
      split
      · next hkj =>
          subst hkj
          constructor
          · rintro (⟨_, rfl⟩ | hm)
            · rfl
            · exact absurd (hj.1 _ hm) (Nat.lt_irrefl k)
          · intro hs
            exact .inl ⟨rfl, (Option.some.inj hs).symm⟩
      · next hkj =>
          rw [← ih hj.2]
          constructor
          · rintro (⟨hk, _⟩ | hm)
            · exact absurd hk hkj
            · exact hm
          · exact .inr

theorem mem_entries_iff {m : NatMap α} {k : Nat} {a : α} :
    (k, a) ∈ m.entries ↔ m.get? k = some a :=
  mem_iff_find m.ascending

theorem contains_iff {m : NatMap α} {k : Nat} : m.contains k = true ↔ ∃ a, m.get? k = some a :=
  Option.isSome_iff_exists

theorem mem_keys_iff {m : NatMap α} {k : Nat} : k ∈ m.keys ↔ m.contains k = true := by
  rw [contains_iff, keys, List.mem_map]
  constructor
  · rintro ⟨⟨j, a⟩, he, rfl⟩
    exact ⟨a, mem_entries_iff.mp he⟩
  · rintro ⟨a, ha⟩
    exact ⟨(k, a), mem_entries_iff.mpr ha, rfl⟩

@[simp] theorem contains_empty (k : Nat) : (∅ : NatMap α).contains k = false := rfl

@[simp] theorem contains_insert {m : NatMap α} {k j : Nat} {a : α} :
    (m.insert k a).contains j = true ↔ j = k ∨ m.contains j = true := by
  simp only [contains, get?_insert]
  split
  · next h => simp [h]
  · next h => simp [h]

@[simp] theorem contains_modify {m : NatMap α} {k j : Nat} {f : α → α} :
    (m.modify k f).contains j = m.contains j := by
  simp only [contains, get?_modify]
  split
  · exact Option.isSome_map
  · rfl

theorem contains_foldl_insert {l : List (Nat × α)} {m : NatMap α} {k : Nat} :
    (l.foldl (fun m e => m.insert e.1 e.2) m).contains k = true ↔
      k ∈ l.map Prod.fst ∨ m.contains k = true := by
  induction l generalizing m with
  | nil => simp
  | cons e rest ih =>
      rw [List.foldl_cons, ih, contains_insert, List.map_cons, List.mem_cons]
      constructor
      · rintro (h | h | h) <;> simp [h]
      · rintro ((h | h) | h) <;> simp [h]

theorem contains_ofList {l : List (Nat × α)} {k : Nat} :
    (ofList l).contains k = true ↔ k ∈ l.map Prod.fst := by
  rw [ofList, contains_foldl_insert]
  simp

theorem mem_of_get?_foldl_insert {l : List (Nat × α)} {m : NatMap α} {k : Nat} {a : α}
    (h : (l.foldl (fun m e => m.insert e.1 e.2) m).get? k = some a) :
    (k, a) ∈ l ∨ m.get? k = some a := by
  induction l generalizing m with
  | nil => exact .inr h
  | cons e rest ih =>
      rw [List.foldl_cons] at h
      rcases ih h with h | h
      · exact .inl (List.mem_cons_of_mem _ h)
      · rw [get?_insert] at h
        split at h
        · next hk =>
            cases h
            exact .inl (hk ▸ List.mem_cons_self)
        · exact .inr h

theorem mem_of_get?_ofList {l : List (Nat × α)} {k : Nat} {a : α}
    (h : (ofList l).get? k = some a) : (k, a) ∈ l :=
  (mem_of_get?_foldl_insert h).resolve_right (by simp)

theorem get?_ofList_map {f : Nat → α} {keys : List Nat} {k : Nat} (h : k ∈ keys) :
    (ofList (keys.map fun j => (j, f j))).get? k = some (f k) := by
  have hin : (ofList (keys.map fun j => (j, f j))).contains k = true := by
    rw [contains_ofList, List.map_map]
    exact List.mem_map.mpr ⟨k, h, rfl⟩
  obtain ⟨a, ha⟩ := contains_iff.mp hin
  obtain ⟨j, -, hj⟩ := List.mem_map.mp (mem_of_get?_ofList ha)
  cases hj
  exact ha

end Entries

section Chips
variable {m : NatMap Chips} {p q : PlayerId}

@[simp] theorem chips_empty (p : PlayerId) : (∅ : NatMap Chips).chips p = 0 := rfl

@[simp] theorem totalChips_empty : (∅ : NatMap Chips).totalChips = 0 := rfl

theorem chips_of_mem {c : Chips} (h : (p, c) ∈ m.entries) : m.chips p = c := by
  rw [chips, mem_entries_iff.mp h, Option.getD_some]

theorem contains_of_chips_pos (h : 0 < m.chips p) : m.contains p = true := by
  rw [chips] at h
  cases hp : m.get? p with
  | none => simp [hp] at h
  | some c => simp [contains, hp]

theorem chips_addChips {c : Chips} :
    (m.addChips p c).chips q = m.chips q + if q = p then c else 0 := by
  simp only [addChips, chips, get?_insert]
  split
  · next h => subst h; rfl
  · rfl

theorem contains_addChips {c : Chips} :
    (m.addChips p c).contains q = true ↔ q = p ∨ m.contains q = true :=
  contains_insert

/-- A write changes the sum by what is written less what it is written over. -/
theorem sum_place {k : Nat} {c : Chips} {l : List (Nat × Chips)}
    (h : l.Pairwise (fun a b => a.1 < b.1)) :
    ((place k c l).map Prod.snd).sum + (find k l).getD 0 = (l.map Prod.snd).sum + c := by
  induction l with
  | nil => simp [place, find]
  | cons e rest ih =>
      obtain ⟨j, b⟩ := e
      have hj := List.pairwise_cons.mp h
      simp only [place]
      split
      · next hlt =>
          have hnone : find k ((j, b) :: rest) = none := by
            apply find_eq_none
            intro x hx
            rcases List.mem_cons.mp hx with rfl | hx
            · exact Nat.ne_of_gt hlt
            · exact Nat.ne_of_gt (Nat.lt_trans hlt (hj.1 x hx))
          simp only [hnone, List.map_cons, List.sum_cons, Option.getD_none]
          lia
      · split
        · next he =>
            simp only [find, he, if_true, List.map_cons, List.sum_cons, Option.getD_some]
            lia
        · next hne =>
            have hrest := ih hj.2
            simp only [find, if_neg hne, List.map_cons, List.sum_cons]
            lia

theorem totalChips_insert (m : NatMap Chips) (p : PlayerId) (c : Chips) :
    (m.insert p c).totalChips + m.chips p = m.totalChips + c :=
  sum_place m.ascending

@[simp] theorem totalChips_addChips (m : NatMap Chips) (p : PlayerId) (c : Chips) :
    (m.addChips p c).totalChips = m.totalChips + c := by
  have h := totalChips_insert m p (m.chips p + c)
  rw [addChips]
  lia

theorem totalChips_eq_zero (h : ∀ p, m.chips p = 0) : m.totalChips = 0 := by
  apply List.sum_eq_zero
  intro c hc
  obtain ⟨⟨p, b⟩, he, rfl⟩ := List.mem_map.mp hc
  exact (chips_of_mem he).symm.trans (h p)

theorem chips_le_totalChips : m.chips p ≤ m.totalChips := by
  have h := totalChips_insert m p 0
  lia

/-- A bound that somebody reaches is the largest entry. -/
theorem eq_largest {c : Chips} (hle : ∀ p, m.chips p ≤ c) (hreached : ∃ p, m.chips p = c) :
    c = m.values.foldr max 0 := by
  apply Nat.le_antisymm
  · obtain ⟨p, hp⟩ := hreached
    rcases Nat.eq_zero_or_pos c with hzero | hpos
    · rw [hzero]
      exact Nat.zero_le _
    · obtain ⟨b, hb⟩ := contains_iff.mp (contains_of_chips_pos (hp ▸ hpos))
      have hmem := mem_entries_iff.mpr hb
      exact List.le_max_of_le (List.mem_map_of_mem hmem) (hp ▸ Nat.le_of_eq (chips_of_mem hmem))
  · refine List.max_le_of_forall_le _ _ fun b hb => ?_
    obtain ⟨⟨p, b⟩, hmem, rfl⟩ := List.mem_map.mp hb
    exact chips_of_mem hmem ▸ hle p

/-- The chips of some players are those of the entries that are theirs. -/
theorem sum_chips_of_nodup {ids : List PlayerId} (hn : ids.Nodup) :
    (ids.map m.chips).sum = ((m.entries.filter fun e => e.1 ∈ ids).map Prod.snd).sum := by
  have hkeys : m.keys.Nodup := m.ascending.map _ fun _ _ h => Nat.ne_of_lt h
  have hperm : (ids.filter fun p => m.contains p).Perm (m.keys.filter fun p => p ∈ ids) := by
    rw [List.perm_ext_iff_of_nodup (hn.filter _) (hkeys.filter _)]
    intro p
    simp only [List.mem_filter, mem_keys_iff, decide_eq_true_eq]
    exact and_comm
  have hentries : ((m.entries.filter fun e => e.1 ∈ ids).map Prod.snd) =
      (m.keys.filter fun p => p ∈ ids).map m.chips := by
    rw [keys, List.filter_map, List.map_map]
    refine List.map_congr_left fun e he => ?_
    exact (chips_of_mem (List.mem_filter.mp he).1).symm
  rw [hentries, ← (hperm.map m.chips).sum_eq]
  -- Whoever has no entry adds nothing.
  clear hn hperm hentries
  induction ids with
  | nil => rfl
  | cons p rest ih =>
      cases hp : m.contains p with
      | true =>
          rw [List.filter_cons_of_pos hp, List.map_cons, List.map_cons, List.sum_cons, ih,
            List.sum_cons]
      | false =>
          have hzero : m.chips p = 0 := Nat.eq_zero_of_not_pos fun hpos => by
            rw [contains_of_chips_pos hpos] at hp
            cases hp
          rw [List.filter_cons_of_neg (by simp [hp]), List.map_cons, List.sum_cons, hzero, ih,
            Nat.zero_add]

/-- What somebody has are the entries that are theirs, of which there is one at most. -/
theorem sum_entries_of (m : NatMap Chips) (p : PlayerId) :
    ((m.entries.filter (·.1 = p)).map Prod.snd).sum = m.chips p := by
  have hone : (([p].map m.chips).sum) = _ := sum_chips_of_nodup (List.nodup_cons.mpr (by simp))
  simp only [List.mem_singleton, List.map_singleton, List.sum_singleton] at hone
  exact hone.symm

/-- Chips that are added one after another are added for whoever they are for. -/
theorem chips_foldl_addChips (es : List (PlayerId × Chips)) :
    (es.foldl (fun m e => m.addChips e.1 e.2) m).chips p =
      m.chips p + ((es.filter (·.1 = p)).map Prod.snd).sum := by
  induction es generalizing m with
  | nil => rfl
  | cons e rest ih =>
      rw [List.foldl_cons, ih, chips_addChips, List.filter_cons]
      by_cases he : e.1 = p
      · rw [if_pos he.symm, if_pos (decide_eq_true he), List.map_cons, List.sum_cons, Nat.add_assoc]
      · rw [if_neg (Ne.symm he), if_neg (by simpa using he), Nat.add_zero]

end Chips
end Holdem.NatMap
