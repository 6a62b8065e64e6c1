/-!
# Finite maps from numbers

A map is the list of its entries in strictly ascending order of their keys. Chips by player,
players' cards, sessions by player and tables by number are all kept this way, so that walking a
map always visits the least key first.
-/
namespace Holdem

universe u v

/-- A finite map from numbers, least key first. -/
structure NatMap (α : Type u) where
  entries : List (Nat × α) := []
  ascending : entries.Pairwise (fun a b => a.1 < b.1) := by simp

namespace NatMap

variable {α : Type u} {β : Type v}

instance : EmptyCollection (NatMap α) := ⟨⟨[], .nil⟩⟩
instance : Inhabited (NatMap α) := ⟨∅⟩
instance [Repr α] : Repr (NatMap α) := ⟨fun m n => reprPrec m.entries n⟩

theorem eq_of_entries : ∀ {m n : NatMap α}, m.entries = n.entries → m = n
  | ⟨_, _⟩, ⟨_, _⟩, rfl => rfl

instance [DecidableEq α] : DecidableEq (NatMap α) := fun m n =>
  if h : m.entries = n.entries then isTrue (eq_of_entries h)
  else isFalse fun e => h (e ▸ rfl)

/-- The value under `k` among entries. -/
def find (k : Nat) : List (Nat × α) → Option α
  | [] => none
  | (j, a) :: rest => if k = j then some a else find k rest

/-- Puts `a` under `k` among ascending entries, over whatever was there. -/
def place (k : Nat) (a : α) : List (Nat × α) → List (Nat × α)
  | [] => [(k, a)]
  | (j, b) :: rest =>
      if k < j then (k, a) :: (j, b) :: rest
      else if k = j then (k, a) :: rest
      else (j, b) :: place k a rest

theorem fst_mem_place {k j : Nat} {a : α} {l : List (Nat × α)} :
    j ∈ (place k a l).map Prod.fst ↔ j = k ∨ j ∈ l.map Prod.fst := by
  induction l with
  | nil => simp [place]
  | cons e rest ih =>
      obtain ⟨i, b⟩ := e
      simp only [place]
      split
      · simp
      · split
        · next h => simp [h]
        · simp only [List.map_cons, List.mem_cons, ih]
          constructor
          · rintro (h | h | h) <;> simp [h]
          · rintro (h | h | h) <;> simp [h]

theorem place_ascending {k : Nat} {a : α} {l : List (Nat × α)}
    (h : l.Pairwise (fun a b => a.1 < b.1)) :
    (place k a l).Pairwise (fun a b => a.1 < b.1) := by
  induction l with
  | nil => simp [place]
  | cons e rest ih =>
      obtain ⟨j, b⟩ := e
      have hj := List.pairwise_cons.mp h
      simp only [place]
      split
      · next hlt =>
          refine List.pairwise_cons.mpr ⟨fun x hx => ?_, h⟩
          rcases List.mem_cons.mp hx with rfl | hx
          · exact hlt
          · exact Nat.lt_trans hlt (hj.1 x hx)
      · next hge =>
          split
          · next he =>
              subst he
              exact List.pairwise_cons.mpr ⟨fun x hx => hj.1 x hx, hj.2⟩
          · next hne =>
              refine List.pairwise_cons.mpr ⟨fun x hx => ?_, ih hj.2⟩
              have hx' : x.1 ∈ (place k a rest).map Prod.fst := List.mem_map_of_mem hx
              rcases fst_mem_place.mp hx' with he | hm
              · show j < x.1
                omega
              · obtain ⟨y, hy, hyx⟩ := List.mem_map.mp hm
                have := hj.1 y hy
                show j < x.1
                omega

def get? (m : NatMap α) (k : Nat) : Option α := find k m.entries

def contains (m : NatMap α) (k : Nat) : Bool := (m.get? k).isSome

def insert (m : NatMap α) (k : Nat) (a : α) : NatMap α :=
  ⟨place k a m.entries, place_ascending m.ascending⟩

def erase (m : NatMap α) (k : Nat) : NatMap α :=
  ⟨m.entries.filter (fun e => e.1 ≠ k), m.ascending.filter _⟩

/-- Changes the value under `k`, if there is one. -/
def modify (m : NatMap α) (k : Nat) (f : α → α) : NatMap α :=
  match m.get? k with
  | some a => m.insert k (f a)
  | none => m

/-- A later entry wins over an earlier one with the same key. -/
def ofList (l : List (Nat × α)) : NatMap α :=
  l.foldl (fun m e => m.insert e.1 e.2) ∅

def keys (m : NatMap α) : List Nat := m.entries.map Prod.fst

def values (m : NatMap α) : List α := m.entries.map Prod.snd

def size (m : NatMap α) : Nat := m.entries.length

def isEmpty (m : NatMap α) : Bool := m.entries.isEmpty

theorem find_place {k j : Nat} {a : α} {l : List (Nat × α)} :
    find j (place k a l) = if j = k then some a else find j l := by
  induction l with
  | nil => simp [place, find]
  | cons e rest ih =>
      obtain ⟨i, b⟩ := e
      simp only [place]
      split
      · simp only [find]
      · split
        · next h =>
            subst h
            simp only [find]
            split <;> simp_all
        · next hne =>
            simp only [find, ih]
            by_cases hji : j = i
            · subst hji
              simp [Ne.symm hne]
            · simp [hji]

/-- Putting a value where it is already changes nothing. -/
theorem place_of_find {k : Nat} {a : α} {l : List (Nat × α)}
    (hl : l.Pairwise (fun a b => a.1 < b.1)) (h : find k l = some a) : place k a l = l := by
  induction l with
  | nil => cases h
  | cons e rest ih =>
      obtain ⟨j, b⟩ := e
      obtain ⟨hj, hrest⟩ := List.pairwise_cons.mp hl
      simp only [find] at h
      split at h
      · next hk =>
          cases h
          rw [place, if_neg (hk ▸ Nat.lt_irrefl k), if_pos hk, hk]
      · next hk =>
          have hplaced := ih hrest h
          have hkey : k ∈ rest.map Prod.fst := hplaced ▸ fst_mem_place.mpr (.inl rfl)
          obtain ⟨x, hx, hxk⟩ := List.mem_map.mp hkey
          rw [place, if_neg (Nat.not_lt_of_gt (hxk ▸ hj x hx)), if_neg hk, hplaced]

theorem insert_of_get? {m : NatMap α} {k : Nat} {a : α} (h : m.get? k = some a) :
    m.insert k a = m :=
  eq_of_entries (place_of_find m.ascending h)

@[simp] theorem get?_empty (k : Nat) : (∅ : NatMap α).get? k = none := rfl

theorem get?_insert {m : NatMap α} {k j : Nat} {a : α} :
    (m.insert k a).get? j = if j = k then some a else m.get? j := find_place

@[simp] theorem get?_insert_self {m : NatMap α} {k : Nat} {a : α} :
    (m.insert k a).get? k = some a := by simp [get?_insert]

/-- What is found after an insertion was inserted, or was there under another key. -/
theorem get?_insert_cases {m : NatMap α} {k j : Nat} {a b : α} (h : (m.insert k a).get? j = some b) :
    j = k ∧ b = a ∨ j ≠ k ∧ m.get? j = some b := by
  rw [get?_insert] at h
  by_cases hjk : j = k
  · rw [if_pos hjk] at h
    exact .inl ⟨hjk, (Option.some.inj h).symm⟩
  · rw [if_neg hjk] at h
    exact .inr ⟨hjk, h⟩

/-- Nothing is lost by an insertion. -/
theorem exists_get?_insert {m : NatMap α} {k j : Nat} {a : α}
    (h : j = k ∨ ∃ b, m.get? j = some b) : ∃ b, (m.insert k a).get? j = some b := by
  rw [get?_insert]
  split
  · exact ⟨a, rfl⟩
  · next hne => exact h.resolve_left hne

theorem mem_of_find {k : Nat} {a : α} {l : List (Nat × α)} (h : find k l = some a) :
    (k, a) ∈ l := by
  induction l with
  | nil => cases h
  | cons e rest ih =>
      obtain ⟨j, b⟩ := e
      simp only [find] at h
      split at h
      · next hk =>
          cases h
          rw [hk]
          exact List.mem_cons_self
      · exact List.mem_cons_of_mem _ (ih h)

theorem mem_values_of_get? {m : NatMap α} {k : Nat} {a : α} (h : m.get? k = some a) :
    a ∈ m.values :=
  List.mem_map_of_mem (mem_of_find h)

theorem find_filter {k j : Nat} {l : List (Nat × α)} :
    find j (l.filter (fun e => e.1 ≠ k)) = if j = k then none else find j l := by
  induction l with
  | nil => simp [find]
  | cons e rest ih =>
      obtain ⟨i, b⟩ := e
      by_cases hik : i = k
      · subst hik
        simp only [ne_eq, not_true_eq_false, decide_false, Bool.false_eq_true,
          not_false_eq_true, List.filter_cons_of_neg, find] at ih ⊢
        rw [ih]
        split <;> rfl
      · simp only [ne_eq, hik, not_false_eq_true, decide_true, List.filter_cons_of_pos, find] at ih ⊢
        rw [ih]
        by_cases hji : j = i
        · subst hji
          simp [hik]
        · simp [hji]

theorem get?_erase {m : NatMap α} {k j : Nat} :
    (m.erase k).get? j = if j = k then none else m.get? j := find_filter

theorem get?_modify {m : NatMap α} {k j : Nat} {f : α → α} :
    (m.modify k f).get? j = if j = k then (m.get? j).map f else m.get? j := by
  unfold modify
  split
  · next a h =>
      rw [get?_insert]
      split
      · next e => subst e; simp [h]
      · rfl
  · next h =>
      split
      · next e => subst e; simp [h]
      · rfl

end NatMap
end Holdem
