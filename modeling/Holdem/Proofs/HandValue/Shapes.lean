import Holdem.Proofs.HandOrder
import Holdem.Proofs.HandValue.Views

/-!
# The shapes of hands

What makes a hand of some rank are values that occur often enough: one four times and one once for
four of a kind, one three times and one twice for a full house, and so on. Reading a shape off the
values from the highest down gives the greatest list that fits it, so the evaluator answers the
highest rank that the cards can make and, of that rank, the greatest values.
-/
namespace Holdem.HandValue

/-! ## Reading a shape off some values -/

/-- The values occur, one after the other, at least as often as the shape asks; they may end before
it does. -/
def Fits (size : Nat → Nat) : List Nat → List Nat → Prop
  | _, [] => True
  | [], _ :: _ => False
  | n :: shape, v :: vs => n ≤ size v ∧ Fits size shape vs

/-- The values that a shape is read off as: each time the first one left that occurs often
enough. -/
def readOff (size : Nat → Nat) : List Nat → List Nat → List Nat
  | [], _ => []
  | n :: shape, l =>
      match l.find? fun v => n ≤ size v with
      | some v => v :: readOff size shape (l.erase v)
      | none => []

section ReadOff
variable {size : Nat → Nat} {shape l vs : List Nat} {n u v : Nat}

theorem readOff_fits (size : Nat → Nat) (shape l : List Nat) :
    Fits size shape (readOff size shape l) := by
  fun_induction readOff size shape l with
  | case1 => trivial
  | case2 n shape l v hfind ih => exact ⟨by simpa using List.find?_some hfind, ih⟩
  | case3 => trivial

theorem readOff_subset (size : Nat → Nat) (shape l : List Nat) : readOff size shape l ⊆ l := by
  fun_induction readOff size shape l with
  | case1 => simp
  | case2 n shape l v hfind ih =>
      exact List.cons_subset.mpr
        ⟨List.mem_of_find?_eq_some hfind, List.Subset.trans ih List.erase_subset⟩
  | case3 => simp

theorem readOff_nodup (hl : l.Nodup) : (readOff size shape l).Nodup := by
  fun_induction readOff size shape l with
  | case1 => exact List.nodup_nil
  | case2 n shape l v hfind ih =>
      refine List.nodup_cons.mpr ⟨fun hv => ?_, ih (hl.erase v)⟩
      exact (hl.mem_erase_iff.mp (readOff_subset _ _ _ hv)).1 rfl
  | case3 => exact List.nodup_nil

/-- No values that fit a shape are greater than those read off. -/
theorem compare_readOff (hl : l.Pairwise (· > ·)) (hn : vs.Nodup) (hsub : vs ⊆ l)
    (hfit : Fits size shape vs) : (compareKeys vs (readOff size shape l)).isLE = true := by
  induction shape generalizing l vs with
  | nil =>
      match vs, hfit with
      | [], _ => rfl
  | cons n shape ih =>
      match vs, hfit with
      | [], _ => cases readOff size (n :: shape) l <;> rfl
      | v :: vs, ⟨hv, hfit⟩ =>
          obtain ⟨hvs, hn⟩ := List.nodup_cons.mp hn
          obtain ⟨hmem, hsub⟩ := List.cons_subset.mp hsub
          obtain ⟨w, hfind, hle⟩ := find?_of_descending hl hmem (p := fun v => n ≤ size v)
            (decide_eq_true hv)
          simp only [readOff, hfind, isLE_compareKeys_cons]
          refine (Nat.lt_or_eq_of_le hle).imp_right fun heq => ⟨heq, ?_⟩
          subst heq
          exact ih (hl.sublist List.erase_sublist) hn
            (fun u hu => (nodup_of_descending hl).mem_erase_iff.mpr
              ⟨fun heq => hvs (heq ▸ hu), hsub hu⟩) hfit

theorem Fits.mono {size' : Nat → Nat} (hle : ∀ v, size v ≤ size' v) (h : Fits size shape vs) :
    Fits size' shape vs := by
  induction vs generalizing shape with
  | nil => cases shape <;> trivial
  | cons v vs ih =>
      match shape, h with
      | n :: shape, ⟨hv, h⟩ => exact ⟨hv.trans (hle v), ih h⟩

/-- Values that fit a shape occur. -/
theorem Fits.pos (h : Fits size shape vs) (hpos : ∀ n ∈ shape, 0 < n) (hv : v ∈ vs) :
    0 < size v := by
  induction vs generalizing shape with
  | nil => simp at hv
  | cons w vs ih =>
      match shape, h with
      | n :: shape, ⟨hw, h⟩ =>
          rcases List.mem_cons.mp hv with rfl | hv
          · exact (hpos n List.mem_cons_self).trans_le hw
          · exact ih h (fun m hm => hpos m (List.mem_cons_of_mem _ hm)) hv

/-- Without one of the values the others still fit a shape that never asks for more further on. -/
theorem Fits.erase (hshape : (n :: shape).Pairwise (· ≥ ·)) (h : Fits size (n :: shape) vs)
    (hv : v ∈ vs) : Fits size shape (vs.erase v) := by
  induction vs generalizing n shape with
  | nil => simp at hv
  | cons w vs ih =>
      by_cases heq : w = v
      · subst heq
        simpa using h.2
      · have hvs : v ∈ vs := (List.mem_cons.mp hv).resolve_left (Ne.symm heq)
        rw [List.erase_cons_tail (by simpa using heq)]
        match shape, h with
        | [], ⟨_, h⟩ => cases vs <;> simp_all [Fits]
        | m :: shape, ⟨hw, h⟩ =>
            obtain ⟨hge, hshape⟩ := List.pairwise_cons.mp hshape
            exact ⟨(hge m List.mem_cons_self).trans hw, ih hshape h hvs⟩

/-- As many values are read off as can fit. -/
theorem length_le_readOff (hshape : shape.Pairwise (· ≥ ·)) (hl : l.Nodup) (hn : vs.Nodup)
    (hsub : vs ⊆ l) (hfit : Fits size shape vs) :
    vs.length ≤ (readOff size shape l).length := by
  induction shape generalizing l vs with
  | nil =>
      match vs, hfit with
      | [], _ => exact Nat.zero_le _
  | cons n shape ih =>
      have htail := (List.pairwise_cons.mp hshape).2
      match vs, hfit with
      | [], _ => exact Nat.zero_le _
      | v :: vs, hfit =>
          obtain ⟨w, hfind⟩ : ∃ w, l.find? (fun u => n ≤ size u) = some w :=
            Option.isSome_iff_exists.mp (List.find?_isSome.mpr
              ⟨v, hsub List.mem_cons_self, decide_eq_true hfit.1⟩)
          simp only [readOff, hfind, List.length_cons]
          -- What was read off first is taken away from the values, or else their first one is.
          by_cases hw : w ∈ v :: vs
          · have hlen := List.length_erase_of_mem hw
            have hrest := ih htail (hl.erase w) (hn.erase w)
              (fun u hu => hl.mem_erase_iff.mpr
                ⟨(hn.mem_erase_iff.mp hu).1, hsub (List.mem_of_mem_erase hu)⟩)
              (hfit.erase hshape hw)
            rw [hlen, List.length_cons] at hrest
            omega
          · refine Nat.succ_le_succ (ih htail (hl.erase w) (List.nodup_cons.mp hn).2
              (fun u hu => hl.mem_erase_iff.mpr ⟨fun heq => hw ?_, ?_⟩) hfit.2)
            · exact heq ▸ List.mem_cons_of_mem _ hu
            · exact hsub (List.mem_cons_of_mem _ hu)

/-- Single values are read off in the order in which they stand. -/
theorem readOff_ones (hpos : ∀ v ∈ l, 0 < size v) (k : Nat) :
    readOff size (List.replicate k 1) l = l.take k := by
  induction k generalizing l with
  | zero => rfl
  | succ k ih =>
      match l, hpos with
      | [], _ => rfl
      | v :: l, hpos =>
          have hv : 1 ≤ size v := hpos v List.mem_cons_self
          simp [List.replicate_succ, readOff, hv, ih fun u hu => hpos u (List.mem_cons_of_mem _ hu)]

theorem fits_ones {k : Nat} (hpos : ∀ v ∈ vs, 0 < size v) (hlen : vs.length ≤ k) :
    Fits size (List.replicate k 1) vs := by
  induction k generalizing vs with
  | zero =>
      obtain rfl := List.eq_nil_of_length_eq_zero (Nat.le_zero.mp hlen)
      trivial
  | succ k ih =>
      match vs, hpos, hlen with
      | [], _, _ => trivial
      | v :: vs, hpos, hlen =>
          exact ⟨hpos v List.mem_cons_self,
            ih (fun u hu => hpos u (List.mem_cons_of_mem _ hu)) (Nat.le_of_succ_le_succ hlen)⟩

/-! ## Shapes and groups -/

/-- Reading off begins with the first group if no higher value occurs often enough. -/
theorem readOff_of_head {gs : List (Nat × Nat)} {m : Nat} (hl : l.Pairwise (· > ·))
    (h : Grouped size l ((n, u) :: gs)) (hm : m ≤ n) (hle : ∀ w ∈ l, m ≤ size w → w ≤ u) :
    readOff size (m :: shape) l = u :: readOff size shape (l.erase u) := by
  obtain ⟨hu, hsize⟩ := h.head_mem
  obtain ⟨w, hfind, huw⟩ := find?_of_descending hl hu (p := fun v => m ≤ size v)
    (decide_eq_true (hsize ▸ hm))
  have hwu := hle w (List.mem_of_find?_eq_some hfind) (by simpa using List.find?_some hfind)
  obtain rfl := Nat.le_antisymm huw hwu
  simp only [readOff, hfind]

/-- If the first group is the largest that the shape asks for, it is read off. -/
theorem readOff_of_head_eq {gs : List (Nat × Nat)} (hl : l.Pairwise (· > ·))
    (h : Grouped size l ((n, u) :: gs)) :
    readOff size (n :: shape) l = u :: readOff size shape (l.erase u) :=
  readOff_of_head hl h (Nat.le_refl n) fun w hw hge => by
    rcases h.head hw with hlt | ⟨-, hle⟩ <;> omega

/-- Nothing is read off if no group is large enough. -/
theorem readOff_of_small {m : Nat} (h : ∀ v ∈ l, size v < m) :
    readOff size (m :: shape) l = [] := by
  have hnone : l.find? (fun v => m ≤ size v) = none :=
    List.find?_eq_none.mpr fun v hv => by simpa using h v hv
  simp only [readOff, hnone]

end ReadOff

/-! ## Making a hand of some rank -/

/-- How often the values of a hand have to occur. -/
def shape : Rank → List Nat
  | .fourOfAKind => [4, 1]
  | .fullHouse => [3, 2]
  | .threeOfAKind => [3, 1, 1]
  | .twoPair => [2, 2, 1]
  | .onePair => [2, 1, 1, 1]
  | .straightFlush | .flush | .straight | .highCard => List.replicate 5 1

/-- How many values of a hand have to occur more than once. Without these it is not made, while
any others may be missing. -/
def repeats (r : Rank) : Nat := (shape r).countP (1 < ·)

/-- The ranks that are made by how often values occur. -/
def byRepeats : List Rank :=
  [.fourOfAKind, .fullHouse, .threeOfAKind, .twoPair, .onePair, .highCard]

/-- Different values of the cards that fit a shape. -/
structure Shows (cards : List Card) (shape vs : List Nat) : Prop where
  distinct : vs.Nodup
  held : vs ⊆ distinctValues cards
  fits : Fits (multiplicity cards) shape vs

/-- The cards make a hand of some rank with some values. -/
inductive Makes (cards : List Card) : Rank → List Nat → Prop
  | straightFlush {s : Suit} {high : Nat} (h5 : 5 ≤ high)
      (h : Shows (ofSuit cards s) (shape .straightFlush) (runFrom high)) :
      Makes cards .straightFlush [high]
  | flush {s : Suit} {vs : List Nat} (h5 : vs.length = 5)
      (h : Shows (ofSuit cards s) (shape .flush) vs) : Makes cards .flush vs
  | straight {high : Nat} (h5 : 5 ≤ high) (h : Shows cards (shape .straight) (runFrom high)) :
      Makes cards .straight [high]
  | repeated {r : Rank} {vs : List Nat} (hr : r ∈ byRepeats) (h : Shows cards (shape r) vs)
      (hlen : repeats r ≤ vs.length) : Makes cards r vs

/-- The greatest values read off the cards for a rank that is made by repeats. -/
def readRepeats? (cards : List Card) (r : Rank) : Option (List Nat) :=
  let vs := readOff (multiplicity cards) (shape r) (distinctValues cards)
  if repeats r ≤ vs.length then some vs else none

/-- The greatest values of a hand of one rank that the cards make, whatever else they make. -/
def bestOf? (cards : List Card) : Rank → Option (List Nat)
  | .straightFlush => ((flushCards? cards).bind straightHigh?).map fun high => [high]
  | .flush => (flushCards? cards).map fun suited => (sortedValues suited).take 5
  | .straight => (straightHigh? cards).map fun high => [high]
  | r => readRepeats? cards r

section Makes
variable {cards sub : List Card} {sh vs us : List Nat} {r : Rank} {s : Suit} {high : Nat}

theorem Shows.mono (hsub : sub.Sublist cards) (h : Shows sub sh vs) : Shows cards sh vs :=
  ⟨h.distinct, List.Subset.trans h.held (distinctValues_mono hsub),
    h.fits.mono (multiplicity_mono hsub)⟩

theorem ofSuit_mono (hsub : sub.Sublist cards) (s : Suit) :
    (ofSuit sub s).Sublist (ofSuit cards s) :=
  hsub.filter _

/-- Cards that hold others make whatever these make. -/
theorem Makes.mono (hsub : sub.Sublist cards) (h : Makes sub r vs) : Makes cards r vs := by
  cases h with
  | straightFlush h5 h => exact .straightFlush h5 (h.mono (ofSuit_mono hsub _))
  | flush h5 h => exact .flush h5 (h.mono (ofSuit_mono hsub _))
  | straight h5 h => exact .straight h5 (h.mono hsub)
  | repeated hr h hlen => exact .repeated hr (h.mono hsub) hlen

theorem shows_readOff (cards : List Card) (sh : List Nat) :
    Shows cards sh (readOff (multiplicity cards) sh (distinctValues cards)) :=
  ⟨readOff_nodup (nodup_of_descending (distinctValues_descending cards)), readOff_subset _ _ _,
    readOff_fits _ _ _⟩

theorem Shows.le_readOff (h : Shows cards sh vs) :
    (compareKeys vs (readOff (multiplicity cards) sh (distinctValues cards))).isLE = true :=
  compare_readOff (distinctValues_descending cards) h.distinct h.held h.fits

theorem shows_ones {k : Nat} (hn : vs.Nodup) (hsub : vs ⊆ distinctValues cards)
    (hlen : vs.length ≤ k) : Shows cards (List.replicate k 1) vs :=
  ⟨hn, hsub, fits_ones (fun _ hv => multiplicity_pos.mpr (hsub hv)) hlen⟩

theorem readOff_distinctValues (cards : List Card) (k : Nat) :
    readOff (multiplicity cards) (List.replicate k 1) (distinctValues cards) =
      (distinctValues cards).take k :=
  readOff_ones (fun _ hv => multiplicity_pos.mpr hv) k

theorem runFrom_nodup (h5 : 5 ≤ high) : (runFrom high).Nodup := by
  simp only [runFrom, ace]
  split <;> simp <;> omega

theorem shows_runFrom (h5 : 5 ≤ high) :
    Shows cards (List.replicate 5 1) (runFrom high) ↔ runFrom high ⊆ distinctValues cards :=
  ⟨Shows.held, fun h => shows_ones (runFrom_nodup h5) h (Nat.le_refl 5)⟩

/-- The suited cards in which a flush is found, and the values it is read off as. -/
theorem flush_spec (h : OneDeck cards) :
    OneDeck (ofSuit cards s) ∧
      (sortedValues (ofSuit cards s)).take 5 = (distinctValues (ofSuit cards s)).take 5 ∧
      (distinctValues (ofSuit cards s)).length = (ofSuit cards s).length := by
  have hdeck := h.sublist (ofSuit_sublist cards s)
  have hone := multiplicity_le_one hdeck.nodup fun c hc => suit_of_mem hc
  exact ⟨hdeck, by rw [sortedValues_of_multiplicity_le_one hone],
    length_distinctValues_of_multiplicity_le_one hone⟩

theorem bestOf?_of_mem_byRepeats (hr : r ∈ byRepeats) : bestOf? cards r = readRepeats? cards r := by
  simp only [byRepeats, List.mem_cons, List.not_mem_nil, or_false] at hr
  rcases hr with rfl | rfl | rfl | rfl | rfl | rfl <;> rfl

theorem bestOf?_makes (h : OneDeck cards) (hlen : cards.length ≤ 7)
    (hbest : bestOf? cards r = some vs) : Makes cards r vs := by
  have hrepeats : r ∈ byRepeats → readRepeats? cards r = some vs → Makes cards r vs := by
    intro hr hread
    simp only [readRepeats?, Option.ite_none_right_eq_some, Option.some.injEq] at hread
    obtain ⟨hle, rfl⟩ := hread
    exact .repeated hr (shows_readOff cards _) hle
  cases r with
  | straightFlush =>
      obtain ⟨high, hfound, rfl⟩ := Option.map_eq_some_iff.mp hbest
      obtain ⟨suited, hsuited, hhigh⟩ := Option.bind_eq_some_iff.mp hfound
      obtain ⟨s, rfl, -⟩ := (flushCards?_eq_some hlen).mp hsuited
      obtain ⟨h5, hrun⟩ := (h.sublist (ofSuit_sublist cards s)).straightHigh?_mem hhigh
      exact .straightFlush h5 ((shows_runFrom h5).mpr hrun)
  | flush =>
      obtain ⟨suited, hsuited, rfl⟩ := Option.map_eq_some_iff.mp hbest
      obtain ⟨s, rfl, h5⟩ := (flushCards?_eq_some hlen).mp hsuited
      obtain ⟨-, hvalues, hcount⟩ := flush_spec (s := s) h
      rw [hvalues, ← readOff_distinctValues]
      refine .flush ?_ (shows_readOff _ _)
      rw [readOff_distinctValues, List.length_take]
      omega
  | straight =>
      obtain ⟨high, hhigh, rfl⟩ := Option.map_eq_some_iff.mp hbest
      obtain ⟨h5, hrun⟩ := h.straightHigh?_mem hhigh
      exact .straight h5 ((shows_runFrom h5).mpr hrun)
  | _ => exact hrepeats (by decide) hbest

theorem Makes.le_bestOf? (h : OneDeck cards) (hlen : cards.length ≤ 7) (hm : Makes cards r vs) :
    ∃ us, bestOf? cards r = some us ∧ (compareKeys vs us).isLE = true := by
  cases hm with
  | straightFlush h5 hshow =>
      rename_i s high
      have hrun := (shows_runFrom h5).mp hshow
      obtain ⟨hdeck, -, hcount⟩ := flush_spec (s := s) h
      have hfive := (List.subperm_of_subset (runFrom_nodup h5) hrun).length_le
      have hsuited : flushCards? cards = some (ofSuit cards s) :=
        (flushCards?_eq_some hlen).mpr ⟨s, rfl, hcount ▸ hfive⟩
      obtain ⟨first, hfirst, hle⟩ := hdeck.straightHigh?_greatest h5 hrun
      refine ⟨[first], by simp [bestOf?, hsuited, hfirst], ?_⟩
      refine (isLE_compareKeys_cons ..).mpr ?_
      exact (Nat.lt_or_eq_of_le hle).imp_right fun heq => ⟨heq, rfl⟩
  | flush h5 hshow =>
      rename_i s
      obtain ⟨-, hvalues, hcount⟩ := flush_spec (s := s) h
      have hfive := (List.subperm_of_subset hshow.distinct hshow.held).length_le
      have hsuited : flushCards? cards = some (ofSuit cards s) :=
        (flushCards?_eq_some hlen).mpr ⟨s, rfl, by omega⟩
      refine ⟨(sortedValues (ofSuit cards s)).take 5, by simp [bestOf?, hsuited], ?_⟩
      rw [hvalues, ← readOff_distinctValues]
      exact hshow.le_readOff
  | straight h5 hshow =>
      obtain ⟨first, hfirst, hle⟩ := h.straightHigh?_greatest h5 ((shows_runFrom h5).mp hshow)
      refine ⟨[first], by simp [bestOf?, hfirst], ?_⟩
      refine (isLE_compareKeys_cons ..).mpr ?_
      exact (Nat.lt_or_eq_of_le hle).imp_right fun heq => ⟨heq, rfl⟩
  | repeated hr hshow hrepeats =>
      have hshape : (shape r).Pairwise (· ≥ ·) := by cases r <;> decide
      have hread := length_le_readOff hshape (nodup_of_descending (distinctValues_descending cards))
        hshow.distinct hshow.held hshow.fits
      refine ⟨_, ?_, hshow.le_readOff⟩
      rw [bestOf?_of_mem_byRepeats hr, readRepeats?, if_pos (hrepeats.trans hread)]

end Makes

/-! ## The evaluator answers the highest rank there is -/

section Best
variable {cards : List Card} {gs : List (Nat × Nat)} {n u : Nat} {r : Rank}

theorem kickers_one (cards : List Card) (u k : Nat) :
    kickers cards [u] k = ((distinctValues cards).erase u).take k := by
  rw [kickers, (nodup_of_descending (distinctValues_descending cards)).erase_eq_filter]
  congr 1
  exact List.filter_congr fun v _ => by simp [bne, beq_eq_decide]

theorem kickers_two (cards : List Card) (u w k : Nat) :
    kickers cards [u, w] k = (((distinctValues cards).erase u).erase w).take k := by
  have hn := nodup_of_descending (distinctValues_descending cards)
  rw [kickers, (hn.erase u).erase_eq_filter, hn.erase_eq_filter, List.filter_filter]
  congr 1
  exact List.filter_congr fun v _ => by simp [bne, beq_eq_decide, Bool.and_comm]

theorem kickers_nil (cards : List Card) (k : Nat) :
    kickers cards [] k = (distinctValues cards).take k := by
  simp [kickers]

theorem readRepeats?_highCard (cards : List Card) :
    readRepeats? cards .highCard = some (kickers cards [] 5) := by
  rw [kickers_nil, ← readOff_distinctValues]
  simp [readRepeats?, repeats, shape]

/-- A rank that asks for a value more often than any occurs is not made. -/
theorem readRepeats?_of_small {m : Nat} {sh : List Nat} (hr : shape r = m :: sh)
    (hm : 1 < m) (hsmall : ∀ v ∈ distinctValues cards, multiplicity cards v < m) :
    readRepeats? cards r = none := by
  simp [readRepeats?, repeats, hr, readOff_of_small hsmall, hm]

/-- Groups of which none is as large as a pair. The first of them tells. -/
def Single : List (Nat × Nat) → Prop
  | [] => True
  | (n, _) :: _ => n < 2

section Groups
variable (hg : Grouped (multiplicity cards) (distinctValues cards) ((n, u) :: gs))
include hg

/-- No value occurs more often than that of the first group. -/
theorem multiplicity_le_head {v : Nat} (hv : v ∈ distinctValues cards) :
    multiplicity cards v ≤ n := by
  rcases hg.head hv with hlt | ⟨heq, -⟩ <;> omega

/-- The second of the two groups of a full house, or of two pair, is the highest of those that
occur twice. This takes seven cards at the most. -/
theorem readOff_second (hlen : cards.length ≤ 7) {n' u' : Nat} {gs' : List (Nat × Nat)}
    {sh : List Nat}
    (hgs : gs = (n', u') :: gs') (hn : 2 ≤ n') :
    readOff (multiplicity cards) (2 :: sh) ((distinctValues cards).erase u) =
      u' :: readOff (multiplicity cards) sh (((distinctValues cards).erase u).erase u') := by
  subst hgs
  have hdesc := distinctValues_descending cards
  have hnodup := nodup_of_descending hdesc
  have htail := hg.tail hnodup
  refine readOff_of_head (hdesc.sublist List.erase_sublist) htail hn fun w hw hge => ?_
  rcases htail.head hw with hlt | ⟨-, hle⟩
  · -- Then there are three of each of the first two values and two of another: one too many.
    have hu' := htail.head_mem
    have hnu : u' ≠ u := (hnodup.mem_erase_iff.mp hu'.1).1
    have hwu : w ≠ u := (hnodup.mem_erase_iff.mp hw).1
    have hwu' : w ≠ u' := fun heq => by
      rw [heq, hu'.2] at hlt
      exact Nat.lt_irrefl _ hlt
    have hsum : ([u, u', w].map (multiplicity cards)).sum ≤ cards.length :=
      sum_multiplicity_le (by simp [hnu.symm, hwu.symm, hwu'.symm])
    have hle := multiplicity_le_head hg (List.mem_of_mem_erase hu'.1)
    simp only [List.map_cons, List.map_nil, List.sum_cons, List.sum_nil, hg.head_mem.2, hu'.2]
      at hsum hle
    omega
  · exact hle

/-- Where the second group is not even a pair, no other value occurs twice. -/
theorem multiplicity_of_single (hgs : Single gs) :
    ∀ v ∈ (distinctValues cards).erase u, multiplicity cards v < 2 := by
  have htail := hg.tail (nodup_of_descending (distinctValues_descending cards))
  intro v hv
  match gs, hgs with
  | [], _ => simp [htail.eq_nil] at hv
  | (n', u') :: gs', hgs =>
      have hlt : n' < 2 := hgs
      rcases htail.head hv with hlt | ⟨heq, -⟩ <;> omega

/-- Then there is no pair to be found among the other groups. -/
theorem find?_of_single (hgs : Single gs) : gs.find? (fun g => 2 ≤ g.1) = none := by
  refine List.find?_eq_none.mpr fun g hmem => ?_
  have htail := hg.tail (nodup_of_descending (distinctValues_descending cards))
  obtain ⟨hmem, hsize⟩ := (htail.mem g).mp hmem
  have := multiplicity_of_single hg hgs g.2 hmem
  simp only [decide_eq_true_eq]
  omega

/-- No rank is made that asks for a value more often than the first one occurs. -/
theorem readRepeats?_of_few {m : Nat} {sh : List Nat} (hr : shape r = m :: sh) (hnm : n < m)
    (hm : 1 < m) : readRepeats? cards r = none :=
  readRepeats?_of_small hr hm fun _ hv => (multiplicity_le_head hg hv).trans_lt hnm

/-- One group and kickers: quads, trips and a pair. -/
theorem readRepeats?_of_head {k : Nat} (hr : shape r = n :: List.replicate k 1) (hn : 1 < n) :
    readRepeats? cards r = some (u :: kickers cards [u] k) := by
  have hpos : ∀ v ∈ (distinctValues cards).erase u, 0 < multiplicity cards v := fun v hv =>
    multiplicity_pos.mpr (List.mem_of_mem_erase hv)
  have hrepeats : repeats r = 1 := by simp [repeats, hr, hn, List.countP_replicate]
  simp [readRepeats?, hr, hrepeats, readOff_of_head_eq (distinctValues_descending cards) hg,
    readOff_ones hpos, kickers_one]

/-- Two groups and kickers: a full house and two pair. -/
theorem readRepeats?_of_two (hlen : cards.length ≤ 7) {n' u' k : Nat} {gs' : List (Nat × Nat)}
    (hgs : gs = (n', u') :: gs') (hn' : 2 ≤ n') (hr : shape r = n :: 2 :: List.replicate k 1)
    (hn : 1 < n) : readRepeats? cards r = some (u :: u' :: kickers cards [u, u'] k) := by
  have hpos : ∀ v ∈ ((distinctValues cards).erase u).erase u', 0 < multiplicity cards v :=
    fun v hv => multiplicity_pos.mpr (List.mem_of_mem_erase (List.mem_of_mem_erase hv))
  have hrepeats : repeats r = 2 := by simp [repeats, hr, hn, List.countP_replicate]
  simp [readRepeats?, hr, hrepeats, readOff_of_head_eq (distinctValues_descending cards) hg,
    readOff_second hg hlen hgs hn', readOff_ones hpos, kickers_two]

/-- Without a second group the ranks that need two are not made. -/
theorem readRepeats?_of_single (hgs : Single gs) {sh : List Nat} (hr : shape r = n :: 2 :: sh)
    (hn : 1 < n) : readRepeats? cards r = none := by
  have hrepeats : 1 < repeats r := by simp [repeats, hr, hn]
  simp [readRepeats?, hr, hrepeats, readOff_of_head_eq (distinctValues_descending cards) hg,
    readOff_of_small (multiplicity_of_single hg hgs)]

end Groups

/-- A hand made by repeats that no other made by repeats outranks. -/
structure BestByRepeats (cards : List Card) (v : HandValue) : Prop where
  rank_mem : v.rank ∈ byRepeats
  read : readRepeats? cards v.rank = some v.values
  highest : ∀ r ∈ byRepeats, v.rank.place < r.place → readRepeats? cards r = none

/-- What is read off the groups, quads and full houses first, is the best that repeats make. The
former outrank flushes and straights, what else there is does not. -/
inductive ReadsBest (cards : List Card) (gs : List (Nat × Nat)) : Prop
  | early {v : HandValue} (hread : quadsOrFull? cards gs = some v) (hbest : BestByRepeats cards v)
      (hrank : Rank.flush.place < v.rank.place)
  | late {v : HandValue} (hnone : quadsOrFull? cards gs = none) (hread : ofGroups cards gs = v)
      (hbest : BestByRepeats cards v) (hrank : v.rank.place < Rank.straight.place)

section ReadsBest
variable {n' u' : Nat} {gs' : List (Nat × Nat)}

theorem readsBest_of_quads
    (hg : Grouped (multiplicity cards) (distinctValues cards) ((4, u) :: gs)) :
    ReadsBest cards ((4, u) :: gs) :=
  .early (v := ⟨.fourOfAKind, u :: kickers cards [u] 1⟩) rfl
    { rank_mem := by simp [byRepeats]
      read := readRepeats?_of_head hg rfl (by omega)
      highest := by simp [byRepeats, Rank.place] } (by simp [Rank.place])

theorem readsBest_of_full (hlen : cards.length ≤ 7) (hn' : 2 ≤ n')
    (hg : Grouped (multiplicity cards) (distinctValues cards) ((3, u) :: (n', u') :: gs')) :
    ReadsBest cards ((3, u) :: (n', u') :: gs') := by
  have hfour : readRepeats? cards .fourOfAKind = none :=
    readRepeats?_of_few hg rfl (by omega) (by omega)
  have hfull : readRepeats? cards .fullHouse = some [u, u'] := by
    simpa [kickers] using readRepeats?_of_two hg hlen rfl hn' (k := 0) rfl (by omega)
  exact .early (v := ⟨.fullHouse, [u, u']⟩) (by simp [quadsOrFull?, hn'])
    { rank_mem := by simp [byRepeats]
      read := hfull
      highest := by simp [byRepeats, Rank.place, hfour] } (by simp [Rank.place])

theorem readsBest_of_trips (hgs : Single gs)
    (hg : Grouped (multiplicity cards) (distinctValues cards) ((3, u) :: gs)) :
    ReadsBest cards ((3, u) :: gs) := by
  have hfour : readRepeats? cards .fourOfAKind = none :=
    readRepeats?_of_few hg rfl (by omega) (by omega)
  have hfull : readRepeats? cards .fullHouse = none :=
    readRepeats?_of_single hg hgs rfl (by omega)
  exact .late (v := ⟨.threeOfAKind, u :: kickers cards [u] 2⟩)
    (by simp [quadsOrFull?, find?_of_single hg hgs]) rfl
    { rank_mem := by simp [byRepeats]
      read := readRepeats?_of_head hg rfl (by omega)
      highest := by simp [byRepeats, Rank.place, hfour, hfull] } (by simp [Rank.place])

theorem readsBest_of_twoPair (hlen : cards.length ≤ 7)
    (hg : Grouped (multiplicity cards) (distinctValues cards) ((2, u) :: (2, u') :: gs')) :
    ReadsBest cards ((2, u) :: (2, u') :: gs') := by
  have hfour : readRepeats? cards .fourOfAKind = none :=
    readRepeats?_of_few hg rfl (by omega) (by omega)
  have hfull : readRepeats? cards .fullHouse = none :=
    readRepeats?_of_few hg rfl (by omega) (by omega)
  have htrips : readRepeats? cards .threeOfAKind = none :=
    readRepeats?_of_few hg rfl (by omega) (by omega)
  exact .late (v := ⟨.twoPair, u :: u' :: kickers cards [u, u'] 1⟩) rfl rfl
    { rank_mem := by simp [byRepeats]
      read := readRepeats?_of_two hg hlen rfl (Nat.le_refl 2) rfl (by omega)
      highest := by simp [byRepeats, Rank.place, hfour, hfull, htrips] } (by simp [Rank.place])

theorem readsBest_of_pair (hgs : Single gs)
    (hg : Grouped (multiplicity cards) (distinctValues cards) ((2, u) :: gs)) :
    ReadsBest cards ((2, u) :: gs) := by
  have hfour : readRepeats? cards .fourOfAKind = none :=
    readRepeats?_of_few hg rfl (by omega) (by omega)
  have hfull : readRepeats? cards .fullHouse = none :=
    readRepeats?_of_few hg rfl (by omega) (by omega)
  have htrips : readRepeats? cards .threeOfAKind = none :=
    readRepeats?_of_few hg rfl (by omega) (by omega)
  have htwo : readRepeats? cards .twoPair = none := readRepeats?_of_single hg hgs rfl (by omega)
  have hread : ofGroups cards ((2, u) :: gs) = ⟨.onePair, u :: kickers cards [u] 3⟩ := by
    match gs, hgs with
    | [], _ => rfl
    | (0, _) :: _, _ => rfl
    | (1, _) :: _, _ => rfl
  exact .late rfl hread
    { rank_mem := by simp [byRepeats]
      read := readRepeats?_of_head hg rfl (by omega)
      highest := by simp [byRepeats, Rank.place, hfour, hfull, htrips, htwo] }
    (by simp [Rank.place])

theorem readsBest_of_single (hgs : Single gs)
    (hg : Grouped (multiplicity cards) (distinctValues cards) gs) : ReadsBest cards gs := by
  have hsmall : ∀ v ∈ distinctValues cards, multiplicity cards v < 2 := by
    match gs, hgs with
    | [], _ => simp [hg.eq_nil]
    | (n, u) :: gs, hgs => exact fun v hv => (multiplicity_le_head hg hv).trans_lt hgs
  have hnone : ∀ {r m sh}, shape r = m :: sh → 2 ≤ m → readRepeats? cards r = none :=
    fun hr hm => readRepeats?_of_small hr hm fun v hv => (hsmall v hv).trans_le hm
  have hread : quadsOrFull? cards gs = none ∧
      ofGroups cards gs = ⟨.highCard, kickers cards [] 5⟩ := by
    match gs, hgs with
    | [], _ => exact ⟨rfl, rfl⟩
    | (0, _) :: _, _ => exact ⟨rfl, rfl⟩
    | (1, _) :: _, _ => exact ⟨rfl, rfl⟩
  exact .late hread.1 hread.2
    { rank_mem := by simp [byRepeats]
      read := readRepeats?_highCard cards
      highest := by
        simp [byRepeats, Rank.place, hnone (r := .fourOfAKind) rfl, hnone (r := .fullHouse) rfl,
          hnone (r := .threeOfAKind) rfl, hnone (r := .twoPair) rfl, hnone (r := .onePair) rfl] }
    (by simp [Rank.place])

/-- The groups of at most seven different cards are one of these kinds. -/
theorem readsBest (hn : cards.Nodup) (hlen : cards.length ≤ 7) :
    ReadsBest cards (groups cards) := by
  have hg := groups_grouped cards
  have hfour := multiplicity_le_four hn
  generalize groups cards = gs at hg
  match gs, hg with
  | [], hg => exact readsBest_of_single trivial hg
  | (n, u) :: gs, hg =>
      have hle : n ≤ 4 := hg.head_mem.2 ▸ hfour u
      rcases Nat.lt_or_ge n 2 with hlt | hge
      · exact readsBest_of_single hlt hg
      obtain rfl | rfl | rfl : n = 4 ∨ n = 3 ∨ n = 2 := by omega
      · exact readsBest_of_quads hg
      · match gs, hg with
        | [], hg => exact readsBest_of_trips trivial hg
        | (n', u') :: gs', hg =>
            rcases Nat.lt_or_ge n' 2 with hlt | hge
            · exact readsBest_of_trips hlt hg
            · exact readsBest_of_full hlen hge hg
      · match gs, hg with
        | [], hg => exact readsBest_of_pair trivial hg
        | (n', u') :: gs', hg =>
            rcases Nat.lt_or_ge n' 2 with hlt | hge
            · exact readsBest_of_pair hlt hg
            · obtain ⟨hmem, hsize⟩ := (hg.mem (n', u')).mp (by simp)
              have hle := multiplicity_le_head hg hmem
              obtain rfl : n' = 2 := by omega
              exact readsBest_of_twoPair hlen hg

end ReadsBest

/-- No rank above some place is made if none is by repeats, nor one of the three others. -/
theorem bestOf?_above {k : Nat}
    (hrepeats : ∀ r ∈ byRepeats, k < r.place → readRepeats? cards r = none)
    (hstraightFlush : bestOf? cards .straightFlush = none)
    (hflush : k < Rank.flush.place → bestOf? cards .flush = none)
    (hstraight : k < Rank.straight.place → bestOf? cards .straight = none) :
    ∀ r : Rank, k < r.place → bestOf? cards r = none := by
  intro r hr
  cases r with
  | straightFlush => exact hstraightFlush
  | flush => exact hflush hr
  | straight => exact hstraight hr
  | _ => exact hrepeats _ (by simp [byRepeats]) hr

/-- The evaluator answers the highest rank that the cards make, and its greatest values. -/
theorem bestOf?_best (h : OneDeck cards) (hlen : cards.length ≤ 7) :
    bestOf? cards (best cards).rank = some (best cards).values ∧
      ∀ r, (best cards).rank.place < r.place → bestOf? cards r = none := by
  rw [best]
  cases hstraightFlush : (flushCards? cards).bind straightHigh? with
  | some high =>
      refine ⟨by simp [bestOf?, hstraightFlush], fun r hr => ?_⟩
      cases r <;> simp [Rank.place] at hr
  | none =>
      have hlow : Rank.straight.place < Rank.flush.place := by decide
      have hnone : bestOf? cards .straightFlush = none := by simp [bestOf?, hstraightFlush]
      rcases readsBest h.nodup hlen with ⟨hread, hbest, hrank⟩ | ⟨hread, rfl, hbest, hrank⟩
      · simp only [hread]
        exact ⟨(bestOf?_of_mem_byRepeats hbest.rank_mem).trans hbest.read,
          bestOf?_above hbest.highest hnone (fun hr => by omega) (fun hr => by omega)⟩
      · simp only [hread]
        cases hflush : flushCards? cards with
        | some suited =>
            refine ⟨by simp [bestOf?, hflush], bestOf?_above (fun r hr hlt => ?_) hnone
              (fun hr => absurd hr (Nat.lt_irrefl _))
              (fun hr => absurd hr (Nat.lt_asymm hlow))⟩
            exact hbest.highest r hr (hrank.trans (hlow.trans hlt))
        | none =>
            have hnoFlush : bestOf? cards .flush = none := by simp [bestOf?, hflush]
            cases hstraight : straightHigh? cards with
            | some high =>
                refine ⟨by simp [bestOf?, hstraight], bestOf?_above (fun r hr hlt => ?_) hnone
                  (fun _ => hnoFlush) (fun hr => absurd hr (Nat.lt_irrefl _))⟩
                exact hbest.highest r hr (hrank.trans hlt)
            | none =>
                exact ⟨(bestOf?_of_mem_byRepeats hbest.rank_mem).trans hbest.read,
                  bestOf?_above hbest.highest hnone (fun _ => hnoFlush)
                    (fun _ => by simp [bestOf?, hstraight])⟩

/-- The cards make the hand they are worth. -/
theorem makes_best (h : OneDeck cards) (hlen : cards.length ≤ 7) :
    Makes cards (best cards).rank (best cards).values :=
  bestOf?_makes h hlen (bestOf?_best h hlen).1

/-- Nothing that the cards make is more than they are worth. -/
theorem Makes.le_best {v : HandValue} (h : OneDeck cards) (hlen : cards.length ≤ 7)
    (hm : Makes cards v.rank v.values) : (compare v (best cards)).isLE = true := by
  obtain ⟨us, hus, hle⟩ := hm.le_bestOf? h hlen
  obtain ⟨hbest, habove⟩ := bestOf?_best h hlen
  show (compareKeys (v.rank.place :: v.values) _).isLE = true
  rw [key, isLE_compareKeys_cons]
  rcases Nat.lt_trichotomy v.rank.place (best cards).rank.place with hlt | heq | hgt
  · exact .inl hlt
  · rw [Rank.place_injective heq, hbest] at hus
    cases hus
    exact .inr ⟨heq, hle⟩
  · rw [habove _ hgt] at hus
    cases hus

/-- Fewer cards are never worth more. -/
theorem best_mono {sub : List Card} (h : OneDeck cards) (hlen : cards.length ≤ 7)
    (hsub : sub.Sublist cards) : (compare (best sub) (best cards)).isLE = true :=
  (((makes_best (h.sublist hsub) (hsub.length_le.trans hlen)).mono hsub).le_best h hlen)

end Best
end Holdem.HandValue
