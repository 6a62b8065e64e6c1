/-!
# Finite sets of numbers

A set is the list of its members in strictly ascending order, so equal sets are equal values and
walking a set visits the least member first. Players, seats and card values are all numbers, and
wherever one of them has to come first it is the least one.
-/
namespace Holdem

/-- A finite set of numbers, least member first. -/
structure NatSet where
  members : List Nat := []
  ascending : members.Pairwise (· < ·) := by simp
deriving DecidableEq

namespace NatSet

instance : EmptyCollection NatSet := ⟨⟨[], .nil⟩⟩
instance : Inhabited NatSet := ⟨∅⟩
instance : Repr NatSet := ⟨fun s n => reprPrec s.members n⟩
instance : Membership Nat NatSet := ⟨fun s n => n ∈ s.members⟩
instance (n : Nat) (s : NatSet) : Decidable (n ∈ s) := inferInstanceAs (Decidable (n ∈ s.members))

theorem mem_def {n : Nat} {s : NatSet} : n ∈ s ↔ n ∈ s.members := Iff.rfl

/-- Puts `n` in its place among ascending numbers, unless it is there already. -/
def place (n : Nat) : List Nat → List Nat
  | [] => [n]
  | m :: rest =>
      if n < m then n :: m :: rest
      else if n = m then m :: rest
      else m :: place n rest

theorem mem_place {n k : Nat} {l : List Nat} : k ∈ place n l ↔ k = n ∨ k ∈ l := by
  induction l with
  | nil => simp [place]
  | cons m rest ih =>
      simp only [place]
      split
      · simp
      · split
        · next h => simp [h]
        · simp only [List.mem_cons, ih]
          constructor
          · rintro (h | h | h) <;> simp [h]
          · rintro (h | h | h) <;> simp [h]

theorem place_ascending {n : Nat} {l : List Nat} (h : l.Pairwise (· < ·)) :
    (place n l).Pairwise (· < ·) := by
  induction l with
  | nil => simp [place]
  | cons m rest ih =>
      have hm := List.pairwise_cons.mp h
      simp only [place]
      split
      · next hlt =>
          refine List.pairwise_cons.mpr ⟨fun k hk => ?_, h⟩
          rcases List.mem_cons.mp hk with rfl | hk
          · exact hlt
          · exact Nat.lt_trans hlt (hm.1 k hk)
      · next hge =>
          split
          · exact h
          · next hne =>
              refine List.pairwise_cons.mpr ⟨fun k hk => ?_, ih hm.2⟩
              rcases mem_place.mp hk with rfl | hk
              · exact Nat.lt_of_le_of_ne (Nat.le_of_not_lt hge) (Ne.symm hne)
              · exact hm.1 k hk

def insert (s : NatSet) (n : Nat) : NatSet :=
  ⟨place n s.members, place_ascending s.ascending⟩

def erase (s : NatSet) (n : Nat) : NatSet :=
  ⟨s.members.filter (· ≠ n), s.ascending.filter _⟩

/-- The numbers of a list, in any order and with any repetition. -/
def ofList (l : List Nat) : NatSet :=
  l.foldl insert ∅

def isEmpty (s : NatSet) : Bool := s.members.isEmpty

def size (s : NatSet) : Nat := s.members.length

@[simp] theorem not_mem_empty (k : Nat) : k ∉ (∅ : NatSet) := by
  show k ∉ ([] : List Nat)
  simp

@[simp] theorem mem_insert {s : NatSet} {n k : Nat} : k ∈ s.insert n ↔ k = n ∨ k ∈ s :=
  mem_place

@[simp] theorem mem_erase {s : NatSet} {n k : Nat} : k ∈ s.erase n ↔ k ∈ s ∧ k ≠ n := by
  simp [mem_def, erase]

@[simp] theorem mem_ofList {l : List Nat} {k : Nat} : k ∈ ofList l ↔ k ∈ l := by
  have key : ∀ (l : List Nat) (s : NatSet), k ∈ l.foldl insert s ↔ k ∈ s ∨ k ∈ l := by
    intro l
    induction l with
    | nil => simp
    | cons n rest ih =>
        intro s
        rw [List.foldl_cons, ih, mem_insert, List.mem_cons]
        constructor
        · rintro ((h | h) | h) <;> simp [h]
        · rintro (h | h | h) <;> simp [h]
  simp [ofList, key]

theorem isEmpty_iff {s : NatSet} : s.isEmpty = true ↔ ∀ k, k ∉ s := by
  simp [isEmpty, mem_def, List.eq_nil_iff_forall_not_mem]

/-- Two ascending lists with the same members are the same list. -/
theorem eq_of_mem_iff : ∀ {l m : List Nat}, l.Pairwise (· < ·) → m.Pairwise (· < ·) →
    (∀ k, k ∈ l ↔ k ∈ m) → l = m
  | [], [], _, _, _ => rfl
  | [], b :: m, _, _, h => absurd ((h b).mpr List.mem_cons_self) (by simp)
  | a :: l, [], _, _, h => absurd ((h a).mp List.mem_cons_self) (by simp)
  | a :: l, b :: m, hl, hm, h => by
      have ha := List.pairwise_cons.mp hl
      have hb := List.pairwise_cons.mp hm
      have hab : a = b := by
        rcases List.mem_cons.mp ((h a).mp List.mem_cons_self) with e | e
        · exact e
        · rcases List.mem_cons.mp ((h b).mpr List.mem_cons_self) with e' | e'
          · exact e'.symm
          · exact absurd (ha.1 b e') (Nat.lt_asymm (hb.1 a e))
      subst hab
      refine congrArg (a :: ·) (eq_of_mem_iff ha.2 hb.2 fun k => ?_)
      constructor
      · intro hk
        rcases List.mem_cons.mp ((h k).mp (List.mem_cons_of_mem _ hk)) with e | e
        · exact absurd (ha.1 k hk) (by simp [e])
        · exact e
      · intro hk
        rcases List.mem_cons.mp ((h k).mpr (List.mem_cons_of_mem _ hk)) with e | e
        · exact absurd (hb.1 k hk) (by simp [e])
        · exact e

theorem ext {s t : NatSet} (h : ∀ k, k ∈ s ↔ k ∈ t) : s = t := by
  cases s; cases t
  simp only [NatSet.mk.injEq]
  exact eq_of_mem_iff (by assumption) (by assumption) h

end NatSet
end Holdem
