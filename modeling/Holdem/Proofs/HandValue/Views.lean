import Holdem.HandValue.Best
import Holdem.Player
import Mathlib.Algebra.BigOperators.Group.List.Basic
import Mathlib.Algebra.Order.BigOperators.Group.List
import Mathlib.Algebra.Order.Group.Nat
import Mathlib.Data.List.Nodup
import Mathlib.Data.List.Perm.Subperm

/-!
# What the views of some cards show

The distinct values descend, the groups descend by size and then by value, the run found is the
highest one there is, and among at most seven cards only one suit can have five.
-/
namespace Holdem.HandValue

section Values
variable {cards : List Card} {u v w : Nat}

/-! ## The values and how often they occur -/

@[simp] theorem mem_distinctValues : v ∈ distinctValues cards ↔ ∃ c ∈ cards, c.value = v := by
  simp [distinctValues, ← NatSet.mem_def]

theorem distinctValues_descending (cards : List Card) :
    (distinctValues cards).Pairwise (· > ·) := by
  simpa [distinctValues, List.pairwise_reverse] using (NatSet.ofList _).ascending

theorem nodup_of_descending {l : List Nat} (h : l.Pairwise (· > ·)) : l.Nodup :=
  h.imp fun hgt => Nat.ne_of_gt hgt

/-- Two descending lists with the same members are the same list. -/
theorem eq_of_descending {l m : List Nat} (hl : l.Pairwise (· > ·)) (hm : m.Pairwise (· > ·))
    (h : ∀ v, v ∈ l ↔ v ∈ m) : l = m := by
  refine List.reverse_injective (NatSet.eq_of_mem_iff ?_ ?_ fun v => ?_)
  · exact List.pairwise_reverse.mpr hl
  · exact List.pairwise_reverse.mpr hm
  · simpa using h v

/-- The first of descending numbers with some property is the greatest one that has it. -/
theorem find?_of_descending {l : List Nat} {p : Nat → Bool} (hl : l.Pairwise (· > ·)) (hw : w ∈ l)
    (hp : p w = true) : ∃ v, l.find? p = some v ∧ w ≤ v := by
  induction l with
  | nil => simp at hw
  | cons a l ih =>
      obtain ⟨ha, hl⟩ := List.pairwise_cons.mp hl
      by_cases hpa : p a = true
      · refine ⟨a, by simp [hpa], ?_⟩
        rcases List.mem_cons.mp hw with rfl | hw
        · exact Nat.le_refl _
        · exact Nat.le_of_lt (ha w hw)
      · have hwl : w ∈ l := (List.mem_cons.mp hw).resolve_left fun e => hpa (e ▸ hp)
        simpa [hpa] using ih hl hwl

theorem multiplicity_eq_count (cards : List Card) (v : Nat) :
    multiplicity cards v = (cards.map Card.value).count v := by
  simp [multiplicity, List.count, List.countP_map, Function.comp_def, beq_eq_decide]

theorem multiplicity_pos : 0 < multiplicity cards v ↔ v ∈ distinctValues cards := by
  simp [multiplicity, List.countP_pos_iff]

theorem multiplicity_mono {sub : List Card} (h : sub.Sublist cards) (v : Nat) :
    multiplicity sub v ≤ multiplicity cards v :=
  h.countP_le

theorem distinctValues_mono {sub : List Card} (h : sub.Sublist cards) :
    distinctValues sub ⊆ distinctValues cards :=
  fun v hv => multiplicity_pos.mp ((multiplicity_pos.mpr hv).trans_le (multiplicity_mono h v))

/-- Counting the cards value by value is counting for each card how often its value is listed. -/
theorem sum_multiplicity (cards : List Card) (vs : List Nat) :
    (vs.map (multiplicity cards)).sum = (cards.map fun c => vs.count c.value).sum := by
  induction vs with
  | nil => simp
  | cons v vs ih =>
      rw [List.map_cons, List.sum_cons, ih]
      clear ih
      induction cards with
      | nil => rfl
      | cons c cards ihc =>
          simp only [multiplicity, List.map_cons, List.sum_cons, List.countP_cons, List.count_cons,
            decide_eq_true_eq, beq_iff_eq] at ihc ⊢
          by_cases h : c.value = v
          · rw [if_pos h, if_pos h.symm]
            omega
          · rw [if_neg h, if_neg (Ne.symm h)]
            omega

/-- Distinct values have no more cards than there are. -/
theorem sum_multiplicity_le {vs : List Nat} (h : vs.Nodup) :
    (vs.map (multiplicity cards)).sum ≤ cards.length := by
  rw [sum_multiplicity]
  refine (List.sum_le_card_nsmul (M := Nat) _ 1 fun n hn => ?_).trans (by simp)
  obtain ⟨c, -, rfl⟩ := List.mem_map.mp hn
  exact List.nodup_iff_count_le_one.mp h c.value

/-- Distinct values that include those of all the cards have all the cards. -/
theorem sum_multiplicity_eq {vs : List Nat} (h : vs.Nodup) (hall : distinctValues cards ⊆ vs) :
    (vs.map (multiplicity cards)).sum = cards.length := by
  have hone : ∀ c ∈ cards, vs.count c.value = 1 := fun c hc =>
    List.count_eq_one_of_mem h (hall (mem_distinctValues.mpr ⟨c, hc, rfl⟩))
  simp [sum_multiplicity, List.map_congr_left hone]

/-- Distinct cards of one value differ in suit, so there are four at most. -/
theorem multiplicity_le_four (hn : cards.Nodup) (v : Nat) : multiplicity cards v ≤ 4 := by
  have hsuits : ((cards.filter fun c => c.value = v).map Card.suit).Nodup := by
    refine List.Nodup.map_on (fun c hc d hd hsuit => ?_) (hn.filter _)
    simp only [List.mem_filter, decide_eq_true_eq] at hc hd
    cases c; cases d
    simp_all
  have hle := (List.subperm_of_subset hsuits fun s _ => Suit.mem_all s).length_le
  rw [multiplicity, List.countP_eq_length_filter]
  simpa [Suit.all] using hle

/-- Distinct cards of one suit differ in value. -/
theorem multiplicity_le_one {s : Suit} (hn : cards.Nodup) (hs : ∀ c ∈ cards, c.suit = s) (v : Nat) :
    multiplicity cards v ≤ 1 := by
  refine Nat.le_trans ?_ (List.nodup_iff_count_le_one.mp hn ⟨v, s⟩)
  refine List.countP_mono_left fun c hc hv => ?_
  obtain rfl : c = ⟨v, s⟩ := by
    rw [← hs c hc, ← of_decide_eq_true hv]
  exact beq_self_eq_true _

theorem multiplicity_of_mem (h : ∀ v, multiplicity cards v ≤ 1) (hv : v ∈ distinctValues cards) :
    multiplicity cards v = 1 :=
  Nat.le_antisymm (h v) (multiplicity_pos.mpr hv)

theorem sortedValues_of_multiplicity_le_one (h : ∀ v, multiplicity cards v ≤ 1) :
    sortedValues cards = distinctValues cards := by
  rw [sortedValues, List.flatMap_congr (g := fun v => [v]) fun v hv => by
    rw [multiplicity_of_mem h hv, List.replicate_one]]
  exact List.flatMap_singleton' _

theorem length_distinctValues_of_multiplicity_le_one (h : ∀ v, multiplicity cards v ≤ 1) :
    (distinctValues cards).length = cards.length := by
  rw [← sum_multiplicity_eq (nodup_of_descending (distinctValues_descending cards))
    (List.Subset.refl _), List.map_congr_left fun v hv => multiplicity_of_mem h hv]
  simp

end Values

/-! ## The groups -/

/-- The groups of some values, each value once with its size: larger groups first, of equal groups
the higher value. -/
structure Grouped (size : Nat → Nat) (l : List Nat) (gs : List (Nat × Nat)) : Prop where
  mem : ∀ g, g ∈ gs ↔ g.2 ∈ l ∧ size g.2 = g.1
  descending : gs.Pairwise fun g g' => g'.1 < g.1 ∨ g'.1 = g.1 ∧ g'.2 < g.2

theorem groups_grouped (cards : List Card) :
    Grouped (multiplicity cards) (distinctValues cards) (groups cards) where
  mem g := by
    obtain ⟨n, v⟩ := g
    have hle : multiplicity cards v ≤ cards.length := List.countP_le_length
    simp only [groups, List.mem_flatMap, List.mem_reverse, List.mem_range, List.mem_map,
      List.mem_filter, Prod.mk.injEq, decide_eq_true_eq]
    constructor
    · rintro ⟨_, -, _, hv, rfl, rfl⟩
      exact hv
    · rintro ⟨hv, rfl⟩
      exact ⟨_, by omega, v, ⟨hv, rfl⟩, rfl, rfl⟩
  descending := by
    rw [groups, List.pairwise_flatMap]
    constructor
    · intro n _
      rw [List.pairwise_map]
      exact ((distinctValues_descending cards).filter _).imp fun hgt => .inr ⟨rfl, hgt⟩
    · refine List.pairwise_reverse.mpr (List.pairwise_lt_range.imp fun hlt g hg g' hg' => ?_)
      obtain ⟨_, -, rfl⟩ := List.mem_map.mp hg
      obtain ⟨_, -, rfl⟩ := List.mem_map.mp hg'
      exact .inl hlt

namespace Grouped
variable {size : Nat → Nat} {l : List Nat} {gs : List (Nat × Nat)} {n u w : Nat}

theorem eq_nil (h : Grouped size l []) : l = [] :=
  List.eq_nil_iff_forall_not_mem.mpr fun v hv => by simpa using (h.mem (size v, v)).mpr ⟨hv, rfl⟩

/-- The first group is a largest one. -/
theorem head (h : Grouped size l ((n, u) :: gs)) (hw : w ∈ l) :
    size w < n ∨ size w = n ∧ w ≤ u := by
  rcases List.mem_cons.mp ((h.mem (size w, w)).mpr ⟨hw, rfl⟩) with heq | htail
  · obtain ⟨hsize, rfl⟩ := Prod.mk.inj heq
    exact .inr ⟨hsize, Nat.le_refl w⟩
  · exact ((List.pairwise_cons.mp h.descending).1 _ htail).imp_right
      fun hrest => ⟨hrest.1, Nat.le_of_lt hrest.2⟩

theorem head_mem (h : Grouped size l ((n, u) :: gs)) : u ∈ l ∧ size u = n :=
  (h.mem (n, u)).mp List.mem_cons_self

/-- The other groups are those of the other values. -/
theorem tail (h : Grouped size l ((n, u) :: gs)) (hl : l.Nodup) : Grouped size (l.erase u) gs where
  mem g := by
    obtain ⟨hfirst, -⟩ := List.pairwise_cons.mp h.descending
    have hu := h.head_mem.2
    rw [hl.mem_erase_iff, and_assoc, ← h.mem g, List.mem_cons]
    constructor
    · intro hg
      refine ⟨fun hgu => ?_, .inr hg⟩
      have hsize := ((h.mem g).mp (List.mem_cons_of_mem _ hg)).2
      rcases hfirst g hg with hlt | ⟨-, hlt⟩
      · rw [hgu, hu] at hsize
        omega
      · omega
    · rintro ⟨hgu, rfl | hg⟩
      · exact absurd rfl hgu
      · exact hg
  descending := (List.pairwise_cons.mp h.descending).2

/-- The groups of some values are what they are in one way only. -/
theorem unique {gs' : List (Nat × Nat)} (h : Grouped size l gs) (h' : Grouped size l gs')
    (hl : l.Nodup) : gs = gs' := by
  induction gs generalizing l gs' with
  | nil =>
      match gs' with
      | [] => rfl
      | (n, u) :: gs' => simpa [h.eq_nil] using h'.head_mem.1
  | cons g gs ih =>
      obtain ⟨n, u⟩ := g
      match gs' with
      | [] => simpa [h'.eq_nil] using h.head_mem.1
      | (n', u') :: gs' =>
          obtain ⟨hu, hn⟩ := h.head_mem
          obtain ⟨hu', hn'⟩ := h'.head_mem
          obtain ⟨rfl, rfl⟩ : u = u' ∧ n = n' := by
            have hle := h.head hu'
            have hge := h'.head hu
            omega
          rw [ih (h.tail hl) (h'.tail hl) (hl.erase u)]

/-- Values in groups of one size come in descending order. -/
theorem eq_map_snd (h : Grouped size l gs) (hl : l.Pairwise (· > ·)) (hn : ∀ g ∈ gs, g.1 = n) :
    l = gs.map Prod.snd := by
  refine eq_of_descending hl (List.pairwise_map.mpr ?_) fun v => ?_
  · refine h.descending.imp_of_mem fun hg hg' hlt => ?_
    rw [hn _ hg, hn _ hg'] at hlt
    omega
  · rw [List.mem_map]
    exact ⟨fun hv => ⟨(size v, v), (h.mem _).mpr ⟨hv, rfl⟩, rfl⟩,
      fun ⟨g, hg, heq⟩ => heq ▸ ((h.mem g).mp hg).1⟩

end Grouped

/-! ## Runs of five -/

/-- The values of a straight with `high` on top, the ace standing in below the deuce. -/
def runFrom (high : Nat) : List Nat :=
  [high, high - 1, high - 2, high - 3, if high = 5 then ace else high - 4]

/-- The numbers from `high` down to four less are all there. -/
def Neighbours (l : List Nat) (high : Nat) : Prop :=
  4 ≤ high ∧ ∀ i ≤ 4, high - i ∈ l

section Runs
variable {l : List Nat} {high : Nat}

theorem firstRun?_neighbours (hl : l.Pairwise (· > ·)) (h : firstRun? l = some high) :
    Neighbours l high := by
  fun_induction firstRun? l with
  | case1 a b c d e rest hspan =>
      obtain rfl : a = high := by simpa using h
      simp only [List.pairwise_cons, List.mem_cons, forall_eq_or_imp] at hl
      refine ⟨by omega, fun i hi => ?_⟩
      have : a - i = a ∨ a - i = b ∨ a - i = c ∨ a - i = d ∨ a - i = e := by omega
      simp only [List.mem_cons]
      tauto
  | case2 a b c d e rest hspan ih =>
      obtain ⟨hhigh, hmem⟩ := ih (List.pairwise_cons.mp hl).2 h
      exact ⟨hhigh, fun i hi => List.mem_cons_of_mem _ (hmem i hi)⟩
  | case3 l hshort => cases h

theorem Neighbours.five_le_length (h : Neighbours l high) : 5 ≤ l.length := by
  have hn : ((List.range 5).map (high - ·)).Nodup := by
    refine List.nodup_range.map_on fun i hi j hj hij => ?_
    have := h.1
    have := List.mem_range.mp hi
    have := List.mem_range.mp hj
    omega
  have hsub : (List.range 5).map (high - ·) ⊆ l := fun v hv => by
    obtain ⟨i, hi, rfl⟩ := List.mem_map.mp hv
    exact h.2 i (by have := List.mem_range.mp hi; omega)
  simpa using (List.subperm_of_subset hn hsub).length_le

/-- A descending list that has the first numbers below its head has them first. -/
theorem getElem?_of_descending {a k : Nat} (hl : (a :: l).Pairwise (· > ·)) (hk : k ≤ a)
    (h : ∀ i ≤ k, a - i ∈ a :: l) : (a :: l)[k]? = some (a - k) := by
  induction k generalizing a l with
  | zero => rfl
  | succ k ih =>
      obtain ⟨ha, htail⟩ := List.pairwise_cons.mp hl
      have hmem : ∀ i ≤ k, a - (i + 1) ∈ l := fun i hi =>
        (List.mem_cons.mp (h (i + 1) (by omega))).resolve_left (by omega)
      match l, ha, htail, hmem with
      | [], _, _, hmem => exact absurd (hmem 0 (by omega)) (by simp)
      | b :: l, ha, htail, hmem =>
          have hb : b = a - 1 := by
            have hlt := ha b List.mem_cons_self
            rcases List.mem_cons.mp (hmem 0 (by omega)) with heq | hless
            · omega
            · have := (List.pairwise_cons.mp htail).1 _ hless
              omega
          have hsub : ∀ i, b - i = a - (i + 1) := fun i => by omega
          rw [List.getElem?_cons_succ, ← hsub]
          exact ih htail (by omega) fun i hi => hsub i ▸ hmem i hi

/-- The first run is the highest one. -/
theorem firstRun?_greatest (hl : l.Pairwise (· > ·)) (h : Neighbours l high) :
    ∃ first, firstRun? l = some first ∧ high ≤ first := by
  fun_induction firstRun? l with
  | case1 a b c d e rest hspan =>
      refine ⟨a, rfl, ?_⟩
      rcases List.mem_cons.mp (h.2 0 (by omega)) with heq | hmem
      · omega
      · have := (List.pairwise_cons.mp hl).1 _ hmem
        omega
  | case2 a b c d e rest hspan ih =>
      have hne : high ≠ a := fun heq => hspan (by
        have he := getElem?_of_descending hl (heq ▸ h.1) fun i hi => heq ▸ h.2 i hi
        have : e = a - 4 := by simpa using he
        have := h.1
        omega)
      have hlt : high < a := by
        rcases List.mem_cons.mp (h.2 0 (by omega)) with heq | hmem
        · exact absurd heq hne
        · exact (List.pairwise_cons.mp hl).1 _ hmem
      refine ih (List.pairwise_cons.mp hl).2 ⟨h.1, fun i hi => ?_⟩
      exact (List.mem_cons.mp (h.2 i hi)).resolve_left (by omega)
  | case3 l hshort =>
      have hlen := h.five_le_length
      match l, hshort with
      | a :: b :: c :: d :: e :: rest, hshort => exact absurd rfl (hshort a b c d e rest)

end Runs

/-! ## Cards of one deck -/

/-- Cards that a single deck can hold: no card twice, and values from the deuce to the ace. -/
structure OneDeck (cards : List Card) : Prop where
  nodup : cards.Nodup
  values : ∀ c ∈ cards, 2 ≤ c.value ∧ c.value ≤ ace

namespace OneDeck
variable {cards sub suited : List Card} {high v : Nat}

theorem sublist (h : OneDeck cards) (hs : sub.Sublist cards) : OneDeck sub :=
  ⟨h.nodup.sublist hs, fun c hc => h.values c (hs.subset hc)⟩

theorem of_mem (h : OneDeck cards) (hv : v ∈ distinctValues cards) : 2 ≤ v ∧ v ≤ ace := by
  obtain ⟨c, hc, rfl⟩ := mem_distinctValues.mp hv
  exact h.values c hc

/-- The distinct values, with the ace also counted below the deuce. -/
theorem lowered (h : OneDeck cards) :
    ∃ l, straightHigh? cards = firstRun? l ∧ l.Pairwise (· > ·) ∧
      ∀ v, v ∈ l ↔ v ∈ distinctValues cards ∨ v = 1 ∧ ace ∈ distinctValues cards := by
  have hdesc := distinctValues_descending cards
  have hmax : (distinctValues cards).head? = some ace ↔ ace ∈ distinctValues cards := by
    refine ⟨List.mem_of_mem_head?, fun hace => ?_⟩
    match hl : distinctValues cards, hace with
    | a :: l, hace =>
      rw [hl] at hdesc
      have ha := (h.of_mem (hl ▸ List.mem_cons_self)).2
      rcases List.mem_cons.mp hace with rfl | hace
      · rfl
      · have := (List.pairwise_cons.mp hdesc).1 _ hace
        omega
  refine ⟨_, rfl, ?_, fun v => ?_⟩
  · split
    · refine List.pairwise_append.mpr ⟨hdesc, by simp, fun v hv w hw => ?_⟩
      obtain rfl := List.mem_singleton.mp hw
      exact (h.of_mem hv).1
    · exact hdesc
  · split
    · next hace => simp [hmax.mp hace]
    · next hace => simp [mt hmax.mpr hace]

/-- Five neighbours among the values, the ace also low, are the values of a straight. -/
theorem neighbours_iff (h : OneDeck cards) {l : List Nat}
    (hl : ∀ v, v ∈ l ↔ v ∈ distinctValues cards ∨ v = 1 ∧ ace ∈ distinctValues cards) :
    Neighbours l high ↔ 5 ≤ high ∧ runFrom high ⊆ distinctValues cards := by
  have hbig : ∀ u, 2 ≤ u → (u ∈ l ↔ u ∈ distinctValues cards) := fun u hu => by
    rw [hl]
    exact or_iff_left fun h1 => by omega
  have hone : 1 ∈ l ↔ ace ∈ distinctValues cards := by
    rw [hl, or_iff_right fun h1 => by have := (h.of_mem h1).1; omega]
    simp
  have hzero : 0 ∉ l := fun h0 => by
    rcases (hl 0).mp h0 with h0 | h0
    · have := (h.of_mem h0).1
      omega
    · omega
  -- The last of the five is the only one for which the low ace can stand in.
  have hlast : 5 ≤ high → ((high - 4 ∈ l) ↔
      (if high = 5 then ace else high - 4) ∈ distinctValues cards) := fun h5 => by
    split
    · next heq => rw [heq, ← hone]
    · exact hbig _ (by omega)
  constructor
  · rintro ⟨h4, hall⟩
    have h5 : 5 ≤ high := by
      rcases Nat.lt_or_ge 4 high with hlt | hle
      · exact hlt
      · obtain rfl : high = 4 := by omega
        exact absurd (hall 4 (by omega)) hzero
    refine ⟨h5, ?_⟩
    simp only [runFrom, List.cons_subset, List.nil_subset, and_true]
    exact ⟨(hbig _ (by omega)).mp (hall 0 (by omega)), (hbig _ (by omega)).mp (hall 1 (by omega)),
      (hbig _ (by omega)).mp (hall 2 (by omega)), (hbig _ (by omega)).mp (hall 3 (by omega)),
      (hlast h5).mp (hall 4 (by omega))⟩
  · rintro ⟨h5, hrun⟩
    simp only [runFrom, List.cons_subset, List.nil_subset, and_true] at hrun
    obtain ⟨h0, h1, h2, h3, h4⟩ := hrun
    refine ⟨by omega, fun i hi => ?_⟩
    match i, hi with
    | 0, _ => exact (hbig _ (by omega)).mpr h0
    | 1, _ => exact (hbig _ (by omega)).mpr h1
    | 2, _ => exact (hbig _ (by omega)).mpr h2
    | 3, _ => exact (hbig _ (by omega)).mpr h3
    | 4, _ => exact (hlast h5).mpr h4

theorem straightHigh?_mem (h : OneDeck cards) (hs : straightHigh? cards = some high) :
    5 ≤ high ∧ runFrom high ⊆ distinctValues cards := by
  obtain ⟨l, heq, hdesc, hmem⟩ := h.lowered
  exact (h.neighbours_iff hmem).mp (firstRun?_neighbours hdesc (heq ▸ hs))

/-- The straight found is the highest. -/
theorem straightHigh?_greatest (h : OneDeck cards) (h5 : 5 ≤ high)
    (hrun : runFrom high ⊆ distinctValues cards) :
    ∃ first, straightHigh? cards = some first ∧ high ≤ first := by
  obtain ⟨l, heq, hdesc, hmem⟩ := h.lowered
  rw [heq]
  exact firstRun?_greatest hdesc ((h.neighbours_iff hmem).mpr ⟨h5, hrun⟩)

end OneDeck

/-! ## Five of a suit -/

/-- The cards of one suit. -/
def ofSuit (cards : List Card) (s : Suit) : List Card :=
  cards.filter fun c => c.suit = s

section Suits
variable {cards suited : List Card} {s t : Suit}

theorem ofSuit_sublist (cards : List Card) (s : Suit) : (ofSuit cards s).Sublist cards :=
  List.filter_sublist

theorem suit_of_mem {c : Card} (hc : c ∈ ofSuit cards s) : c.suit = s := by
  simpa using (List.mem_filter.mp hc).2

/-- Two suits have no more cards than there are. -/
theorem length_ofSuit_add_le (hst : s ≠ t) :
    (ofSuit cards s).length + (ofSuit cards t).length ≤ cards.length := by
  simp only [ofSuit, ← List.countP_eq_length_filter]
  induction cards with
  | nil => simp
  | cons c cards ih =>
      simp only [List.countP_cons, List.length_cons, decide_eq_true_eq]
      grind

/-- If at most one suit has five cards, its cards are found. -/
theorem flushCards?_eq_some_of_one
    (hone : ∀ s t, 5 ≤ (ofSuit cards s).length → 5 ≤ (ofSuit cards t).length → s = t) :
    flushCards? cards = some suited ↔ ∃ s, suited = ofSuit cards s ∧ 5 ≤ suited.length := by
  constructor
  · intro h
    obtain ⟨s, -, rfl⟩ := List.mem_map.mp (List.mem_of_find?_eq_some h)
    exact ⟨s, rfl, by simpa using List.find?_some h⟩
  · rintro ⟨s, rfl, hfive⟩
    cases h : flushCards? cards with
    | none =>
        have := List.find?_eq_none.mp h (ofSuit cards s)
          (List.mem_map.mpr ⟨s, Suit.mem_all s, rfl⟩)
        simp [hfive] at this
    | some other =>
        obtain ⟨t, -, rfl⟩ := List.mem_map.mp (List.mem_of_find?_eq_some h)
        have hother : 5 ≤ (ofSuit cards t).length := by
          simpa [ofSuit] using List.find?_some h
        rw [hone s t hfive hother]
        rfl

/-- Among seven cards at most one suit has five. -/
theorem flushCards?_eq_some (hlen : cards.length ≤ 7) :
    flushCards? cards = some suited ↔ ∃ s, suited = ofSuit cards s ∧ 5 ≤ suited.length := by
  refine flushCards?_eq_some_of_one fun s t hs ht => Classical.byContradiction fun hst => ?_
  have := @length_ofSuit_add_le cards s t hst
  omega

end Suits
end Holdem.HandValue
