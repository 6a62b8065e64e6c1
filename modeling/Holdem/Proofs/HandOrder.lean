import Holdem.HandValue
import Holdem.Maximal

/-!
# Hands in order

Keys compare one number at a time, and the first difference decides. So hands are in a total order,
any hands have a greatest one among them, and there is always somebody to win a pot.
-/
namespace Holdem

namespace HandValue

/-- A key is at most another if it is smaller at the first difference, or there is none. -/
theorem isLE_compareKeys_cons (a b : Nat) (u v : List Nat) :
    (compareKeys (a :: u) (b :: v)).isLE = true ↔
      a < b ∨ a = b ∧ (compareKeys u v).isLE = true := by
  rw [compareKeys]
  rcases Nat.lt_trichotomy a b with h | h | h
  · simp [Nat.compare_eq_lt.mpr h, h]
  · simp [h]
  · have hne : ¬ (a < b ∨ a = b ∧ (compareKeys u v).isLE = true) := by omega
    simp [Nat.compare_eq_gt.mpr h, hne]

theorem compareKeys_total (u v : List Nat) :
    (compareKeys u v).isLE = true ∨ (compareKeys v u).isLE = true := by
  induction u generalizing v with
  | nil => cases v <;> simp [compareKeys]
  | cons a u ih =>
      cases v with
      | nil => simp [compareKeys]
      | cons b v =>
          rw [isLE_compareKeys_cons, isLE_compareKeys_cons]
          rcases Nat.lt_trichotomy a b with h | rfl | h
          · exact .inl (.inl h)
          · exact (ih v).imp (.inr ⟨rfl, ·⟩) (.inr ⟨rfl, ·⟩)
          · exact .inr (.inl h)

theorem compareKeys_trans {u v w : List Nat} (huv : (compareKeys u v).isLE = true)
    (hvw : (compareKeys v w).isLE = true) : (compareKeys u w).isLE = true := by
  induction u generalizing v w with
  | nil => cases w <;> simp [compareKeys]
  | cons a u ih =>
      cases v with
      | nil => simp [compareKeys] at huv
      | cons b v =>
          cases w with
          | nil => simp [compareKeys] at hvw
          | cons c w =>
              rw [isLE_compareKeys_cons] at huv hvw ⊢
              rcases huv with hab | ⟨rfl, huv⟩
              · exact .inl (by omega)
              · rcases hvw with hac | ⟨rfl, hvw⟩
                · exact .inl hac
                · exact .inr ⟨rfl, ih huv hvw⟩

theorem compare_total (a b : HandValue) :
    (compare a b).isLE = true ∨ (compare b a).isLE = true :=
  compareKeys_total a.key b.key

theorem compare_trans {a b c : HandValue} (hab : (compare a b).isLE = true)
    (hbc : (compare b c).isLE = true) : (compare a c).isLE = true :=
  compareKeys_trans hab hbc

/-- Comparing the other way round gives the opposite answer. -/
theorem compareKeys_swap (u v : List Nat) : compareKeys u v = (compareKeys v u).swap := by
  induction u generalizing v with
  | nil => cases v <;> rfl
  | cons a u ih =>
      cases v with
      | nil => rfl
      | cons b v =>
          rw [compareKeys, compareKeys, Ordering.swap_then, ← ih v, Nat.compare_swap]

/-- Keys that are each at most the other are the same. -/
theorem compareKeys_antisymm {u v : List Nat} (huv : (compareKeys u v).isLE = true)
    (hvu : (compareKeys v u).isLE = true) : u = v := by
  induction u generalizing v with
  | nil =>
      cases v with
      | nil => rfl
      | cons b v => simp [compareKeys] at hvu
  | cons a u ih =>
      cases v with
      | nil => simp [compareKeys] at huv
      | cons b v =>
          rw [isLE_compareKeys_cons] at huv hvu
          obtain ⟨rfl, hrest⟩ : a = b ∧ (compareKeys u v).isLE = true := by
            rcases huv with hlt | huv
            · rcases hvu with hgt | ⟨rfl, -⟩ <;> omega
            · exact huv
          rw [ih hrest (hvu.resolve_left (Nat.lt_irrefl a)).2]

theorem compare_antisymm {a b : HandValue} (hab : (compare a b).isLE = true)
    (hba : (compare b a).isLE = true) : a = b :=
  key_injective (compareKeys_antisymm hab hba)

theorem compare_swap (a b : HandValue) : compare a b = (compare b a).swap :=
  compareKeys_swap a.key b.key

end HandValue

/-- Some hand of several is beaten by none of them. -/
theorem exists_isGreatest {items : List HandValue} (h : items ≠ []) :
    ∃ x ∈ items, isGreatest items x = true := by
  simp only [isGreatest, List.all_eq_true]
  induction items with
  | nil => exact absurd rfl h
  | cons a rest ih =>
      have hself : (compare a a).isLE = true := (HandValue.compare_total a a).elim id id
      by_cases hrest : rest = []
      · subst hrest
        exact ⟨a, by simp, by simpa using hself⟩
      · obtain ⟨x, hx, hmax⟩ := ih hrest
        rcases HandValue.compare_total a x with hle | hle
        · refine ⟨x, List.mem_cons_of_mem _ hx, fun y hy => ?_⟩
          rcases List.mem_cons.mp hy with rfl | hy
          · exact hle
          · exact hmax y hy
        · refine ⟨a, List.mem_cons_self, fun y hy => ?_⟩
          rcases List.mem_cons.mp hy with rfl | hy
          · exact hself
          · exact HandValue.compare_trans (hmax y hy) hle

end Holdem
