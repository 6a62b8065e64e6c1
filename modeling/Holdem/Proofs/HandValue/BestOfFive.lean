import Holdem.Proofs.HandValue.Shapes
import Mathlib.Data.List.Sublists
import Mathlib.Data.List.Dedup

/-!
# The best five of seven

What five cards are worth is told by the rules of the game: which of their values repeat, whether
they are all of one suit and whether they are in a row. What up to seven cards are worth is the
most that any five of them are worth, and cards that come on top never make a hand worse.
-/
namespace Holdem.HandValue

/-! ## What five cards are worth -/

/-- The values of some cards, each once: those that occur more often come first, of those that
occur equally often the higher. -/
def byFrequency (cards : List Card) : List Nat :=
  let values := cards.map Card.value
  values.dedup.mergeSort fun u v =>
    values.count v < values.count u ∨ values.count u = values.count v ∧ v ≤ u

/-- The top of five descending values in a row, with the ace also below the deuce. -/
def topOfRow? (values : List Nat) : Option Nat :=
  if values = [ace, 5, 4, 3, 2] then some 5
  else
    match values with
    | [a, b, c, d, e] =>
        if a = b + 1 ∧ b = c + 1 ∧ c = d + 1 ∧ d = e + 1 then some a else none
    | _ => none

/-- What five cards are worth by the rules of the game. -/
def worthOfFive (five : List Card) : HandValue :=
  let values := byFrequency five
  match values.map fun v => (five.map Card.value).count v with
  | [4, 1] => ⟨.fourOfAKind, values⟩
  | [3, 2] => ⟨.fullHouse, values⟩
  | [3, 1, 1] => ⟨.threeOfAKind, values⟩
  | [2, 2, 1] => ⟨.twoPair, values⟩
  | [2, 1, 1, 1] => ⟨.onePair, values⟩
  | _ =>
    let suited := Suit.all.any fun s => five.all fun c => c.suit = s
    match topOfRow? values, suited with
    | some high, true => ⟨.straightFlush, [high]⟩
    | some high, false => ⟨.straight, [high]⟩
    | none, true => ⟨.flush, values⟩
    | none, false => ⟨.highCard, values⟩

section Five
variable {cards five : List Card}

theorem mem_byFrequency {v : Nat} : v ∈ byFrequency cards ↔ v ∈ distinctValues cards := by
  rw [byFrequency, List.mem_mergeSort, List.mem_dedup, List.mem_map, mem_distinctValues]

theorem byFrequency_nodup (cards : List Card) : (byFrequency cards).Nodup :=
  (List.mergeSort_perm _ _).nodup_iff.mpr (List.nodup_dedup _)

theorem byFrequency_sorted (cards : List Card) :
    (byFrequency cards).Pairwise fun u v => multiplicity cards v < multiplicity cards u ∨
      multiplicity cards u = multiplicity cards v ∧ v ≤ u := by
  simp only [multiplicity_eq_count]
  refine (List.pairwise_mergeSort ?_ ?_ _).imp fun h => of_decide_eq_true h
  · simp only [decide_eq_true_eq]
    omega
  · simp only [Bool.or_eq_true, decide_eq_true_eq]
    omega

theorem byFrequency_grouped (cards : List Card) :
    Grouped (multiplicity cards) (distinctValues cards)
      ((byFrequency cards).map fun v => (multiplicity cards v, v)) where
  mem g := by
    simp only [List.mem_map, mem_byFrequency]
    constructor
    · rintro ⟨v, hv, rfl⟩
      exact ⟨hv, rfl⟩
    · rintro ⟨hv, hsize⟩
      exact ⟨g.2, hv, by rw [hsize]⟩
  descending := by
    refine List.pairwise_map.mpr (((byFrequency_sorted cards).and (byFrequency_nodup cards)).imp ?_)
    rintro u v ⟨hlt | ⟨heq, hle⟩, hne⟩
    · exact .inl hlt
    · exact .inr ⟨heq.symm, by omega⟩

/-- The groups are the values by frequency, with how often each of them occurs. -/
theorem groups_eq (cards : List Card) :
    groups cards = (byFrequency cards).map fun v => (multiplicity cards v, v) :=
  (groups_grouped cards).unique (byFrequency_grouped cards)
    (nodup_of_descending (distinctValues_descending cards))

theorem byFrequency_eq (cards : List Card) : byFrequency cards = (groups cards).map Prod.snd := by
  simp [groups_eq, Function.comp_def]

theorem counts_eq (cards : List Card) :
    ((byFrequency cards).map fun v => (cards.map Card.value).count v) =
      (groups cards).map Prod.fst := by
  simp [groups_eq, Function.comp_def, multiplicity_eq_count]

/-- The ways in which five cards fall into groups. -/
theorem groups_of_five (hn : five.Nodup) (h5 : five.length = 5) :
    (∃ q k, groups five = [(4, q), (1, k)]) ∨ (∃ t p, groups five = [(3, t), (2, p)]) ∨
      (∃ t a b, groups five = [(3, t), (1, a), (1, b)]) ∨
      (∃ p q k, groups five = [(2, p), (2, q), (1, k)]) ∨
      (∃ p a b c, groups five = [(2, p), (1, a), (1, b), (1, c)]) ∨
      ∃ a b c d e, groups five = [(1, a), (1, b), (1, c), (1, d), (1, e)] := by
  have hg := groups_grouped five
  have hsum : ((groups five).map Prod.fst).sum = 5 := by
    rw [groups_eq, List.map_map, ← h5]
    exact sum_multiplicity_eq (byFrequency_nodup five) fun v hv => mem_byFrequency.mpr hv
  have hsize : ∀ g ∈ groups five, 1 ≤ g.1 ∧ g.1 ≤ 4 := fun g hgs => by
    obtain ⟨hmem, hsize⟩ := (hg.mem g).mp hgs
    exact hsize ▸ ⟨multiplicity_pos.mpr hmem, multiplicity_le_four hn g.2⟩
  have hdesc : (groups five).Pairwise fun g g' => g'.1 ≤ g.1 :=
    hg.descending.imp fun h => by omega
  clear hg
  generalize groups five = gs at *
  match gs with
  | [] => cases hsum
  | [(k, _)] =>
      simp only [List.map_cons, List.map_nil, List.sum_cons, List.sum_nil] at hsum
      simp only [List.forall_mem_cons] at hsize
      omega
  | [(k, u), (l, v)] =>
      simp only [List.map_cons, List.map_nil, List.sum_cons, List.sum_nil, List.forall_mem_cons,
        List.pairwise_cons] at hsum hsize hdesc
      obtain ⟨rfl, rfl⟩ | ⟨rfl, rfl⟩ : k = 4 ∧ l = 1 ∨ k = 3 ∧ l = 2 := by omega
      · exact .inl ⟨u, v, rfl⟩
      · exact .inr (.inl ⟨u, v, rfl⟩)
  | [(k, u), (l, v), (m, w)] =>
      simp only [List.map_cons, List.map_nil, List.sum_cons, List.sum_nil, List.forall_mem_cons,
        List.pairwise_cons] at hsum hsize hdesc
      obtain ⟨rfl, rfl, rfl⟩ | ⟨rfl, rfl, rfl⟩ : k = 3 ∧ l = 1 ∧ m = 1 ∨ k = 2 ∧ l = 2 ∧ m = 1 := by
        omega
      · exact .inr (.inr (.inl ⟨u, v, w, rfl⟩))
      · exact .inr (.inr (.inr (.inl ⟨u, v, w, rfl⟩)))
  | [(k, u), (l, v), (m, w), (n, x)] =>
      simp only [List.map_cons, List.map_nil, List.sum_cons, List.sum_nil, List.forall_mem_cons,
        List.pairwise_cons] at hsum hsize hdesc
      obtain ⟨rfl, rfl, rfl, rfl⟩ : k = 2 ∧ l = 1 ∧ m = 1 ∧ n = 1 := by omega
      exact .inr (.inr (.inr (.inr (.inl ⟨u, v, w, x, rfl⟩))))
  | [(k, u), (l, v), (m, w), (n, x), (o, y)] =>
      simp only [List.map_cons, List.map_nil, List.sum_cons, List.sum_nil] at hsum
      simp only [List.forall_mem_cons] at hsize
      obtain ⟨rfl, rfl, rfl, rfl, rfl⟩ : k = 1 ∧ l = 1 ∧ m = 1 ∧ n = 1 ∧ o = 1 := by omega
      exact .inr (.inr (.inr (.inr (.inr ⟨u, v, w, x, y, rfl⟩))))
  | (k, u) :: (l, v) :: (m, w) :: (n, x) :: (o, y) :: (p, z) :: rest =>
      simp only [List.map_cons, List.sum_cons] at hsum
      simp only [List.forall_mem_cons] at hsize
      omega

theorem length_groups (cards : List Card) :
    (groups cards).length = (distinctValues cards).length := by
  have hperm : (byFrequency cards).Perm (distinctValues cards) :=
    (List.perm_ext_iff_of_nodup (byFrequency_nodup cards)
      (nodup_of_descending (distinctValues_descending cards))).mpr fun _ => mem_byFrequency
  rw [groups_eq, List.length_map, hperm.length_eq]

/-- With fewer than five values there is no straight, and among five cards no flush either. -/
theorem no_run_of_few (h : OneDeck five) (h5 : five.length = 5) (hfew : (groups five).length < 5) :
    flushCards? five = none ∧ straightHigh? five = none := by
  rw [length_groups] at hfew
  constructor
  · refine Option.eq_none_iff_forall_ne_some.mpr fun suited hsome => ?_
    obtain ⟨s, rfl, hfive⟩ := (flushCards?_eq_some (by omega)).mp hsome
    obtain ⟨-, -, hcount⟩ := flush_spec (s := s) h
    have hle := (List.subperm_of_subset
      (nodup_of_descending (distinctValues_descending (ofSuit five s)))
      (distinctValues_mono (ofSuit_sublist five s))).length_le
    omega
  · refine Option.eq_none_iff_forall_ne_some.mpr fun high hsome => ?_
    obtain ⟨hhigh, hrun⟩ := h.straightHigh?_mem hsome
    have hle : 5 ≤ (distinctValues five).length :=
      (List.subperm_of_subset (runFrom_nodup hhigh) hrun).length_le
    omega

theorem best_of_neither (hflush : flushCards? cards = none)
    (hstraight : straightHigh? cards = none) :
    best cards = (quadsOrFull? cards (groups cards)).getD (ofGroups cards (groups cards)) := by
  simp only [best, hflush, hstraight, Option.bind_none]
  cases quadsOrFull? cards (groups cards) <;> rfl

/-- What is left of the values after those that repeat are the others, in descending order. -/
theorem kickers_of_one {n u : Nat} {gs : List (Nat × Nat)} (hgs : groups cards = (n, u) :: gs)
    (hone : ∀ g ∈ gs, g.1 = 1) (k : Nat) : kickers cards [u] k = (gs.map Prod.snd).take k := by
  have hdesc := distinctValues_descending cards
  have hg := groups_grouped cards
  rw [hgs] at hg
  rw [kickers_one, (hg.tail (nodup_of_descending hdesc)).eq_map_snd
    (hdesc.sublist List.erase_sublist) hone]

theorem kickers_of_two {m n u v : Nat} {gs : List (Nat × Nat)}
    (hgs : groups cards = (m, u) :: (n, v) :: gs) (hone : ∀ g ∈ gs, g.1 = 1) (k : Nat) :
    kickers cards [u, v] k = (gs.map Prod.snd).take k := by
  have hdesc := distinctValues_descending cards
  have hn := nodup_of_descending hdesc
  have hg := groups_grouped cards
  rw [hgs] at hg
  rw [kickers_two, ((hg.tail hn).tail (hn.erase u)).eq_map_snd
    ((hdesc.sublist List.erase_sublist).sublist List.erase_sublist) hone]

/-- Five cards with a value that repeats are worth what the evaluator answers. -/
theorem worthOfFive_of_few (h : OneDeck five) (h5 : five.length = 5)
    (hfew : (groups five).length < 5) : worthOfFive five = best five := by
  obtain ⟨hflush, hstraight⟩ := no_run_of_few h h5 hfew
  rw [best_of_neither hflush hstraight, worthOfFive, counts_eq, byFrequency_eq]
  rcases groups_of_five h.nodup h5 with ⟨q, k, hgs⟩ | ⟨t, p, hgs⟩ | ⟨t, a, b, hgs⟩ |
    ⟨p, q, k, hgs⟩ | ⟨p, a, b, c, hgs⟩ | ⟨a, b, c, d, e, hgs⟩
  · simp [hgs, quadsOrFull?, kickers_of_one hgs]
  · simp [hgs, quadsOrFull?]
  · simp [hgs, quadsOrFull?, ofGroups, kickers_of_one hgs]
  · simp [hgs, quadsOrFull?, ofGroups, kickers_of_two hgs]
  · simp [hgs, quadsOrFull?, ofGroups, kickers_of_one hgs]
  · simp [hgs] at hfew

/-- Of five different values, those in a row are found. -/
theorem straightHigh?_of_five (h : OneDeck five) {a b c d e : Nat}
    (hv : distinctValues five = [a, b, c, d, e]) :
    straightHigh? five = topOfRow? [a, b, c, d, e] := by
  have hdesc := hv ▸ distinctValues_descending five
  have he : 2 ≤ e := (h.of_mem (hv ▸ by simp)).1
  simp only [List.pairwise_cons, List.mem_cons, forall_eq_or_imp] at hdesc
  simp only [straightHigh?, hv, List.head?_cons, Option.some.injEq, topOfRow?, List.cons.injEq,
    and_true]
  have hrow : a - e = 4 ↔ a = b + 1 ∧ b = c + 1 ∧ c = d + 1 ∧ d = e + 1 := by omega
  by_cases hace : a = ace
  · -- The window on the low ace is looked at last, and is a straight only below a five.
    have hlow : b - 1 = 4 ↔ b = 5 ∧ c = 4 ∧ d = 3 ∧ e = 2 := by omega
    rw [if_pos hace]
    simp only [List.cons_append, List.nil_append, firstRun?, hrow, hlow, and_iff_right hace]
    split
    · next hin => rw [if_neg (by have : ace = 14 := rfl; omega)]
    · split
      · next hlast => rw [hlast.1]
      · rfl
  · rw [if_neg hace, if_neg fun hwheel => hace hwheel.1]
    simp only [firstRun?, hrow]

/-- Five cards are a flush if they are all of one suit. -/
theorem flushCards?_of_five (h5 : five.length = 5) :
    flushCards? five =
      if (Suit.all.any fun s => five.all fun c => c.suit = s) = true then some five else none := by
  split
  · next hsuited =>
      obtain ⟨s, -, hs⟩ := List.any_eq_true.mp hsuited
      have hall : ofSuit five s = five := List.filter_eq_self.mpr (List.all_eq_true.mp hs)
      exact (flushCards?_eq_some (by omega)).mpr ⟨s, hall.symm, by omega⟩
  · next hmixed =>
      refine Option.eq_none_iff_forall_ne_some.mpr fun suited hsome => hmixed ?_
      obtain ⟨s, rfl, hfive⟩ := (flushCards?_eq_some (by omega)).mp hsome
      have hall : ofSuit five s = five :=
        (ofSuit_sublist five s).eq_of_length_le (by omega)
      exact List.any_eq_true.mpr ⟨s, Suit.mem_all s,
        List.all_eq_true.mpr fun c hc => decide_eq_true (suit_of_mem (hall.symm ▸ hc))⟩

/-- Five different values are worth what the evaluator answers. -/
theorem worthOfFive_of_different (h : OneDeck five) (h5 : five.length = 5) {a b c d e : Nat}
    (hgs : groups five = [(1, a), (1, b), (1, c), (1, d), (1, e)]) :
    worthOfFive five = best five := by
  have hg := groups_grouped five
  rw [hgs] at hg
  have hv : distinctValues five = [a, b, c, d, e] :=
    hg.eq_map_snd (distinctValues_descending five) (n := 1) (by simp)
  have hone : ∀ v, multiplicity five v ≤ 1 := fun v => by
    by_cases hmem : v ∈ distinctValues five
    · exact multiplicity_le_head hg hmem
    · exact Nat.le_of_not_lt fun hlt => hmem (multiplicity_pos.mp (Nat.zero_lt_of_lt hlt))
  have hvalues : (sortedValues five).take 5 = [a, b, c, d, e] := by
    rw [sortedValues_of_multiplicity_le_one hone, hv]
    rfl
  have hhigh : ofGroups five (groups five) = ⟨.highCard, [a, b, c, d, e]⟩ := by
    simp [hgs, ofGroups, kickers_nil, hv]
  have hnone : quadsOrFull? five (groups five) = none := by simp [hgs, quadsOrFull?]
  rw [worthOfFive, counts_eq, byFrequency_eq, best, hnone, hhigh, hgs, flushCards?_of_five h5,
    straightHigh?_of_five h hv]
  cases Suit.all.any fun s => five.all fun c => c.suit = s
  · cases htop : topOfRow? [a, b, c, d, e] <;> simp [htop]
  · cases htop : topOfRow? [a, b, c, d, e] <;>
      simp [straightHigh?_of_five h hv, htop, hvalues]

theorem worthOfFive_eq_best (h : OneDeck five) (h5 : five.length = 5) :
    worthOfFive five = best five := by
  rcases Nat.lt_or_ge (groups five).length 5 with hfew | hmany
  · exact worthOfFive_of_few h h5 hfew
  · rcases groups_of_five h.nodup h5 with ⟨q, k, hgs⟩ | ⟨t, p, hgs⟩ | ⟨t, a, b, hgs⟩ |
      ⟨p, q, k, hgs⟩ | ⟨p, a, b, c, hgs⟩ | ⟨a, b, c, d, e, hgs⟩
    all_goals first | exact worthOfFive_of_different h h5 hgs | simp [hgs] at hmany

end Five

/-! ## The five cards that make a hand -/

/-- Values written out as often as a shape asks for them. -/
def spell (shape vs : List Nat) : List Nat :=
  (List.zipWith List.replicate shape vs).flatten

section Spell
variable {size : Nat → Nat} {shape vs : List Nat} {v : Nat}

theorem spell_cons (n v : Nat) (shape vs : List Nat) :
    spell (n :: shape) (v :: vs) = List.replicate n v ++ spell shape vs := by
  simp [spell]

theorem mem_of_mem_spell (h : v ∈ spell shape vs) : v ∈ vs := by
  induction shape generalizing vs with
  | nil => simp [spell] at h
  | cons n shape ih =>
      match vs with
      | [] => simp [spell] at h
      | u :: vs =>
          rw [spell_cons] at h
          rcases List.mem_append.mp h with hrep | hrest
          · exact List.mem_cons.mpr (.inl (List.eq_of_mem_replicate hrep))
          · exact List.mem_cons_of_mem _ (ih hrest)

theorem length_spell_le (shape vs : List Nat) : (spell shape vs).length ≤ shape.sum := by
  induction shape generalizing vs with
  | nil => simp [spell]
  | cons n shape ih =>
      match vs with
      | [] => simp [spell]
      | v :: vs =>
          have := ih vs
          simp only [spell_cons, List.length_append, List.length_replicate, List.sum_cons]
          omega

/-- Different values fit a shape if they occur as often as it spells them out. -/
theorem fits_iff_count (hn : vs.Nodup) :
    Fits size shape vs ↔
      vs.length ≤ shape.length ∧ ∀ v, (spell shape vs).count v ≤ size v := by
  induction shape generalizing vs with
  | nil => cases vs <;> simp [Fits, spell]
  | cons n shape ih =>
      cases vs with
      | nil => simp [Fits, spell]
      | cons v vs =>
          obtain ⟨hv, hn⟩ := List.nodup_cons.mp hn
          have hzero : (spell shape vs).count v = 0 :=
            List.count_eq_zero.mpr fun hmem => hv (mem_of_mem_spell hmem)
          have hcount : ∀ w, (spell (n :: shape) (v :: vs)).count w =
              (if v = w then n else 0) + (spell shape vs).count w := fun w => by
            simp only [spell_cons, List.count_append, List.count_replicate, beq_iff_eq]
          simp only [Fits, ih hn, hcount, List.length_cons, Nat.add_le_add_iff_right]
          constructor
          · rintro ⟨hsize, hlen, hle⟩
            refine ⟨hlen, fun w => ?_⟩
            split
            · next heq => rwa [← heq, hzero]
            · simpa using hle w
          · rintro ⟨hlen, hle⟩
            refine ⟨by simpa [hzero] using hle v, hlen, fun w => ?_⟩
            exact (Nat.le_add_left _ _).trans (hle w)

end Spell

section Made
variable {cards : List Card} {sh vs : List Nat} {r : Rank} {n : Nat}

/-- Cards that show a shape have as few cards among them that show it as it asks for. -/
theorem Shows.exists_made (h : Shows cards sh vs) (hpos : ∀ n ∈ sh, 0 < n) :
    ∃ made, made.Sublist cards ∧ made.length ≤ sh.sum ∧ Shows made sh vs := by
  obtain ⟨hlen, hcount⟩ := (fits_iff_count h.distinct).mp h.fits
  have hsub : (spell sh vs).Subperm (cards.map Card.value) :=
    List.subperm_ext_iff.mpr fun v _ => multiplicity_eq_count cards v ▸ hcount v
  obtain ⟨spelt, hperm, hsub⟩ := hsub
  obtain ⟨made, hmade, rfl⟩ := List.sublist_map_iff.mp hsub
  have hfits : Fits (multiplicity made) sh vs :=
    (fits_iff_count h.distinct).mpr
      ⟨hlen, fun v => by rw [multiplicity_eq_count, hperm.count_eq]⟩
  refine ⟨made, hmade, ?_, h.distinct, fun v hv => multiplicity_pos.mp (hfits.pos hpos hv), hfits⟩
  have := length_spell_le sh vs
  rwa [← hperm.length_eq, List.length_map] at this

/-- A hand is made by five of the cards at the most. -/
theorem Makes.exists_made (h : Makes cards r vs) :
    ∃ made, made.Sublist cards ∧ made.length ≤ 5 ∧ Makes made r vs := by
  have hsum : ∀ r, (shape r).sum = 5 := by intro r; cases r <;> rfl
  have hpos : ∀ r, ∀ n ∈ shape r, 0 < n := by intro r; cases r <;> decide
  have hsuit : ∀ {s made}, made.Sublist (ofSuit cards s) → ofSuit made s = made := fun hmade =>
    List.filter_eq_self.mpr fun c hc => decide_eq_true (suit_of_mem (hmade.subset hc))
  cases h with
  | @straightFlush s high h5 h =>
      obtain ⟨made, hmade, hlen, hshow⟩ := h.exists_made (hpos _)
      refine ⟨made, hmade.trans (ofSuit_sublist ..), hsum _ ▸ hlen, .straightFlush (s := s) h5 ?_⟩
      rwa [hsuit hmade]
  | @flush s vs h5 h =>
      obtain ⟨made, hmade, hlen, hshow⟩ := h.exists_made (hpos _)
      refine ⟨made, hmade.trans (ofSuit_sublist ..), hsum _ ▸ hlen, .flush (s := s) h5 ?_⟩
      rwa [hsuit hmade]
  | straight h5 h =>
      obtain ⟨made, hmade, hlen, hshow⟩ := h.exists_made (hpos _)
      exact ⟨made, hmade, hsum _ ▸ hlen, .straight h5 hshow⟩
  | repeated hr h hrepeats =>
      obtain ⟨made, hmade, hlen, hshow⟩ := h.exists_made (hpos _)
      exact ⟨made, hmade, hsum _ ▸ hlen, .repeated hr hshow hrepeats⟩

/-- Some cards among others can be filled up with these to any number there is. -/
theorem exists_sublist_between {made : List Card} (h : made.Sublist cards) (hmade : made.length ≤ n)
    (hn : n ≤ cards.length) : ∃ l, made.Sublist l ∧ l.Sublist cards ∧ l.length = n := by
  induction h generalizing n with
  | slnil => exact ⟨[], .slnil, .slnil, by simp_all⟩
  | @cons made cards c h ih =>
      rcases Nat.lt_or_ge cards.length n with hlt | hge
      · exact ⟨c :: cards, h.cons c, .refl _, by simp at hn ⊢; omega⟩
      · obtain ⟨l, hml, hl, hlen⟩ := ih hmade hge
        exact ⟨l, hml, hl.cons c, hlen⟩
  | @cons_cons made cards c h ih =>
      match n, hmade, hn with
      | n + 1, hmade, hn =>
          obtain ⟨l, hml, hl, hlen⟩ := ih (Nat.le_of_succ_le_succ hmade) (Nat.le_of_succ_le_succ hn)
          exact ⟨c :: l, hml.cons_cons c, hl.cons_cons c, by simp [hlen]⟩

/-- Five of the cards are worth as much as all of them. -/
theorem exists_best_five (h : OneDeck cards) (hlen : cards.length ≤ 7) (hfive : 5 ≤ cards.length) :
    ∃ five, five.Sublist cards ∧ five.length = 5 ∧ best five = best cards := by
  obtain ⟨made, hmade, hle, hmakes⟩ := (makes_best h hlen).exists_made
  obtain ⟨five, hmf, hsub, h5⟩ := exists_sublist_between hmade hle hfive
  refine ⟨five, hsub, h5, compare_antisymm (best_mono h hlen hsub) ?_⟩
  exact (hmakes.mono hmf).le_best (h.sublist hsub) (by omega)

/-- Up to seven cards of one deck are worth the most that any five of them are, and none of them
are worth more than all. -/
theorem best_of_five (cards : List Card) (h : OneDeck cards) (hlen : cards.length ≤ 7) :
    (5 ≤ cards.length →
      best cards ∈ (cards.sublistsLen 5).map worthOfFive ∧
        isGreatest ((cards.sublistsLen 5).map worthOfFive) (best cards) = true) ∧
    ∀ sub, sub.Sublist cards → (compare (best sub) (best cards)).isLE = true := by
  refine ⟨fun hfive => ⟨?_, ?_⟩, fun sub hsub => best_mono h hlen hsub⟩
  · obtain ⟨five, hsub, h5, hbest⟩ := exists_best_five h hlen hfive
    refine List.mem_map.mpr ⟨five, List.mem_sublistsLen.mpr ⟨hsub, h5⟩, ?_⟩
    rw [worthOfFive_eq_best (h.sublist hsub) h5, hbest]
  · refine List.all_eq_true.mpr fun v hv => ?_
    obtain ⟨five, hmem, rfl⟩ := List.mem_map.mp hv
    obtain ⟨hsub, h5⟩ := List.mem_sublistsLen.mp hmem
    rw [worthOfFive_eq_best (h.sublist hsub) h5]
    exact best_mono h hlen hsub

/-- Six cards in a row below an ace, of which two make a pair, hold two straights. -/
def twoStraights : List Card :=
  [⟨ace, .spade⟩, ⟨2, .heart⟩, ⟨3, .spade⟩, ⟨4, .diamond⟩, ⟨5, .club⟩, ⟨6, .club⟩, ⟨6, .heart⟩]

theorem best_of_five_straights :
    OneDeck twoStraights ∧ twoStraights.length ≤ 7 ∧ 5 ≤ twoStraights.length ∧
      best twoStraights ∈ (twoStraights.sublistsLen 5).map worthOfFive ∧
      isGreatest ((twoStraights.sublistsLen 5).map worthOfFive) (best twoStraights) = true ∧
      ∀ sub, sub.Sublist twoStraights → (compare (best sub) (best twoStraights)).isLE = true := by
  have hdeck : OneDeck twoStraights := ⟨by decide, by decide⟩
  have hlen : twoStraights.length ≤ 7 := by decide
  have hfive : 5 ≤ twoStraights.length := by decide
  obtain ⟨hof, hsub⟩ := best_of_five twoStraights hdeck hlen
  exact ⟨hdeck, hlen, hfive, (hof hfive).1, (hof hfive).2, hsub⟩

/-- The higher straight counts, not the one from the ace up. -/
example : best twoStraights = ⟨.straight, [6]⟩ := by decide

end Made
end Holdem.HandValue
