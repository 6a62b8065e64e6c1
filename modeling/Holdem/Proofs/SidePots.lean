import Holdem.Proofs.PotShares
import Mathlib.Algebra.BigOperators.Group.Finset.Piecewise
import Mathlib.Algebra.BigOperators.Group.Finset.Sigma
import Mathlib.Data.Finset.Sort
import Mathlib.Order.Interval.Finset.Nat

/-!
# Side pots partition the chips

Whoever puts chips in piles them up, so that every chip lies at some height of its owner's pile,
the first one at height one. The heights of the piles of those still standing cut the chips into
pots: a pot holds the chips between two neighbouring heights, whoever put them in, and can be won
by the standing players whose piles reach the upper one. Chips above every standing pile lie in
the last pot. Which chips were put in and who is standing is read off the calls made, in whatever
order contributions and folds came.
-/
namespace Holdem

/-- What is told to the stakes of a hand. -/
inductive StakeCall where
  | contribute (player : PlayerId) (amount : Chips)
  | fold (player : PlayerId)
deriving Repr, DecidableEq

namespace StakeCall

def player : StakeCall → PlayerId
  | contribute p _ => p
  | fold p => p

/-- What a call adds to the pile of `p`. -/
def amountFor (p : PlayerId) : StakeCall → Chips
  | contribute q c => if p = q then c else 0
  | fold _ => 0

variable (calls : List StakeCall)

/-- The height of the pile of `p`. -/
def pile (p : PlayerId) : Chips := (calls.map (amountFor p)).sum

def contributors : Finset PlayerId :=
  (calls.map player).toFinset.filter fun p => 0 < pile calls p

/-- The contributors that did not fold. -/
def standing : Finset PlayerId := (contributors calls).filter fun p => fold p ∉ calls

/-- The distinct heights of the standing piles, lowest first. -/
def heights : List Chips := ((standing calls).image (pile calls)).sort

/-- Every chip that was put in, as its owner and the height it lies at. -/
def chips : Finset ((_ : PlayerId) × Chips) :=
  (contributors calls).sigma fun p => Finset.Icc 1 (pile calls p)

end StakeCall

namespace Stakes

def note (s : Stakes) : StakeCall → Stakes
  | .contribute p c => s.contribute p c
  | .fold p => s.fold p

/-- The stakes after some calls, made one after another. -/
def after (calls : List StakeCall) : Stakes := calls.foldl note {}

/-! ## What the stakes keep -/

section Note
variable {s : Stakes} {calls : List StakeCall} {p : PlayerId} {c : Chips}

theorem contribution_foldl_note :
    (calls.foldl note s).contribution p = s.contribution p + StakeCall.pile calls p := by
  induction calls generalizing s with
  | nil => rfl
  | cons call rest ih =>
      rw [List.foldl_cons, ih, StakeCall.pile, StakeCall.pile, List.map_cons, List.sum_cons,
        ← Nat.add_assoc]
      cases call with
      | contribute q c => rw [note, contribution_contribute, StakeCall.amountFor]
      | fold q => rfl

theorem contribution_after : (after calls).contribution p = StakeCall.pile calls p := by
  rw [after, contribution_foldl_note]
  exact Nat.zero_add _

theorem mem_folded_foldl_note :
    p ∈ (calls.foldl note s).folded ↔ p ∈ s.folded ∨ .fold p ∈ calls := by
  induction calls generalizing s with
  | nil => simp
  | cons call rest ih =>
      rw [List.foldl_cons, ih, List.mem_cons]
      cases call with
      | contribute q c =>
          rw [note, folded_contribute]
          simp
      | fold q =>
          rw [note, fold, NatSet.mem_insert, StakeCall.fold.injEq]
          constructor
          · rintro ((h | h) | h) <;> simp [h]
          · rintro (h | h | h) <;> simp [h]

theorem mem_folded_after : p ∈ (after calls).folded ↔ .fold p ∈ calls := by
  rw [after, mem_folded_foldl_note]
  simp

/-- Nothing is noted of a contribution of no chips. -/
theorem contribution_pos_of_mem_foldl_note
    (hs : ∀ p, s.contributions.contains p = true → 0 < s.contribution p)
    (h : (calls.foldl note s).contributions.contains p = true) :
    0 < (calls.foldl note s).contribution p := by
  induction calls generalizing s with
  | nil => exact hs p h
  | cons call rest ih =>
      refine ih (s := s.note call) (fun q hq => ?_) h
      cases call with
      | fold r => exact hs q hq
      | contribute r c =>
          rw [note] at hq ⊢
          by_cases hc : c = 0
          · rw [contribute, if_pos hc] at hq ⊢
            exact hs q hq
          · rw [contribution_contribute]
            rcases contains_contribute hq with rfl | hq
            · rw [if_pos rfl]
              exact Nat.add_pos_right _ (Nat.pos_of_ne_zero hc)
            · exact Nat.add_pos_left (hs q hq) _

theorem pile_eq_zero_of_not_called (h : p ∉ calls.map StakeCall.player) :
    StakeCall.pile calls p = 0 := by
  refine List.sum_eq_zero fun c hc => ?_
  obtain ⟨call, hcall, rfl⟩ := List.mem_map.mp hc
  cases call with
  | contribute q c =>
      refine if_neg fun hpq => h ?_
      exact List.mem_map.mpr ⟨_, hcall, hpq.symm⟩
  | fold q => rfl

theorem mem_contributors : p ∈ StakeCall.contributors calls ↔ 0 < StakeCall.pile calls p := by
  rw [StakeCall.contributors, Finset.mem_filter, List.mem_toFinset, and_iff_right_iff_imp]
  intro hpos
  refine Classical.byContradiction fun hout => ?_
  rw [pile_eq_zero_of_not_called hout] at hpos
  exact Nat.lt_irrefl 0 hpos

theorem contains_after :
    (after calls).contributions.contains p = true ↔ p ∈ StakeCall.contributors calls := by
  rw [mem_contributors, ← contribution_after]
  refine ⟨contribution_pos_of_mem_foldl_note fun q hq => ?_, NatMap.contains_of_chips_pos⟩
  cases hq

theorem get?_after :
    (after calls).contributions.get? p = some c ↔
      p ∈ StakeCall.contributors calls ∧ StakeCall.pile calls p = c := by
  rw [← contains_after, ← contribution_after, NatMap.contains_iff, contribution, NatMap.chips]
  constructor
  · intro h
    exact ⟨⟨c, h⟩, by rw [h, Option.getD_some]⟩
  · rintro ⟨⟨b, hb⟩, rfl⟩
    rw [hb, Option.getD_some]

theorem mem_standing_after :
    (p, c) ∈ (after calls).standing ↔
      p ∈ StakeCall.standing calls ∧ StakeCall.pile calls p = c := by
  rw [mem_standing, get?_after, mem_folded_after, StakeCall.standing, Finset.mem_filter,
    and_right_comm]

theorem mem_reaching_after :
    p ∈ (after calls).reaching c ↔ p ∈ StakeCall.standing calls ∧ c ≤ StakeCall.pile calls p := by
  rw [mem_reaching]
  constructor
  · rintro ⟨b, hb, hcb⟩
    obtain ⟨hp, rfl⟩ := mem_standing_after.mp hb
    exact ⟨hp, hcb⟩
  · rintro ⟨hp, hc⟩
    exact ⟨_, mem_standing_after.mpr ⟨hp, rfl⟩, hc⟩

theorem mem_heights :
    c ∈ StakeCall.heights calls ↔ ∃ p ∈ StakeCall.standing calls, StakeCall.pile calls p = c := by
  rw [StakeCall.heights, Finset.mem_sort, Finset.mem_image]

theorem heights_ascending : (StakeCall.heights calls).Pairwise (· < ·) :=
  (Finset.sortedLT_sort _).pairwise

theorem levels_after : (after calls).levels = StakeCall.heights calls := by
  refine NatSet.eq_of_mem_iff (NatSet.ofList _).ascending heights_ascending fun c => ?_
  refine Iff.trans mem_levels ?_
  simp only [mem_heights, mem_standing_after]

/-! ## Counting chips -/

/-- A sum over what was put in is a sum over the piles. -/
theorem sum_values_after (f : Chips → Chips) :
    ((after calls).contributions.values.map f).sum =
      ∑ p ∈ StakeCall.contributors calls, f (StakeCall.pile calls p) := by
  have hkeys : (after calls).contributions.keys.Nodup :=
    List.Pairwise.map _ (fun _ _ h => Nat.ne_of_lt h) (after calls).contributions.ascending
  have hsame : (after calls).contributions.keys.toFinset = StakeCall.contributors calls := by
    ext p
    rw [List.mem_toFinset, NatMap.mem_keys_iff, contains_after]
  have hvalues : (after calls).contributions.values =
      (after calls).contributions.keys.map (StakeCall.pile calls) := by
    rw [NatMap.values, NatMap.keys, List.map_map]
    refine List.map_congr_left fun e he => ?_
    exact (get?_after.mp (NatMap.mem_entries_iff.mp he)).2.symm
  rw [← hsame, List.sum_toFinset _ hkeys, hvalues, List.map_map]
  rfl

/-- The chips at some heights are those of each pile at these heights. -/
theorem card_chips_filter (inside : Chips → Prop) [DecidablePred inside] :
    ((StakeCall.chips calls).filter fun chip => inside chip.2).card =
      ∑ p ∈ StakeCall.contributors calls,
        ((Finset.Icc 1 (StakeCall.pile calls p)).filter inside).card := by
  simp only [Finset.card_filter, StakeCall.chips, Finset.sum_sigma]

theorem card_between (pile low high : Chips) :
    ((Finset.Icc 1 pile).filter fun height => low < height ∧ height ≤ high).card =
      min pile high - min pile low := by
  have hrange : (Finset.Icc 1 pile).filter (fun height => low < height ∧ height ≤ high) =
      Finset.Ioc (min pile low) (min pile high) := by
    ext height
    simp only [Finset.mem_filter, Finset.mem_Icc, Finset.mem_Ioc]
    lia
  rw [hrange, Nat.card_Ioc]

theorem card_above (pile low : Chips) :
    ((Finset.Icc 1 pile).filter fun height => low < height).card = pile - min pile low := by
  have hrange : (Finset.Icc 1 pile).filter (fun height => low < height) =
      Finset.Ioc (min pile low) pile := by
    ext height
    simp only [Finset.mem_filter, Finset.mem_Icc, Finset.mem_Ioc]
    lia
  rw [hrange, Nat.card_Ioc]

theorem between_after (low high : Chips) :
    (after calls).between low high =
      ((StakeCall.chips calls).filter fun chip => low < chip.2 ∧ chip.2 ≤ high).card := by
  rw [between, sum_values_after, card_chips_filter fun height => low < height ∧ height ≤ high]
  exact Finset.sum_congr rfl fun p _ => (card_between _ low high).symm

theorem above_after (low : Chips) :
    (after calls).above low =
      ((StakeCall.chips calls).filter fun chip => low < chip.2).card := by
  rw [above, sum_values_after, card_chips_filter fun height => low < height]
  exact Finset.sum_congr rfl fun p _ => (card_above _ low).symm

theorem total_after : (after calls).total = (StakeCall.chips calls).card := by
  rw [← above_zero, above_after]
  refine congrArg Finset.card (Finset.filter_true_of_mem fun chip hchip => ?_)
  exact (Finset.mem_Icc.mp (Finset.mem_sigma.mp hchip).2).1

end Note

/-! ## The pots above a height -/

section Above
variable {s : Stakes} {low : Chips} {levels : List Chips}

theorem length_potsAbove (h : levels ≠ []) : (s.potsAbove low levels).length = levels.length := by
  induction levels generalizing low with
  | nil => exact absurd rfl h
  | cons level rest ih =>
      cases rest with
      | nil => rfl
      | cons next more =>
          rw [potsAbove, List.length_cons, ih (List.cons_ne_nil _ _)]
          · rfl
          · exact fun h => absurd h (List.cons_ne_nil _ _)

/-- Which slice of the chips a pot is. Only the last one has no upper bound. -/
theorem getElem?_potsAbove {j : Nat} {below top : Chips}
    (hbelow : (low :: levels)[j]? = some below) (htop : levels[j]? = some top) :
    (s.potsAbove low levels)[j]? =
      some ⟨if j + 1 = levels.length then s.above below else s.between below top,
        s.reaching top⟩ := by
  induction levels generalizing low j with
  | nil => simp at htop
  | cons level rest ih =>
      cases rest with
      | nil =>
          cases j with
          | zero =>
              cases hbelow
              cases htop
              rfl
          | succ j => simp at htop
      | cons next more =>
          cases j with
          | zero =>
              cases hbelow
              cases htop
              simp [potsAbove]
          | succ j =>
              rw [List.getElem?_cons_succ] at hbelow htop
              rw [potsAbove, List.getElem?_cons_succ, ih hbelow htop]
              · simp
              · exact fun h => absurd h (List.cons_ne_nil _ _)

end Above

/-! ## The partition -/

/-- How the pots divide up the chips of the calls that were made. -/
structure PartitionedBy (s : Stakes) (calls : List StakeCall) : Prop where
  /-- There is one pot for each height of a standing pile. -/
  length_eq : (StakeCall.standing calls).Nonempty →
    s.pots.length = (StakeCall.heights calls).length
  /-- A pot can be won by the standing players whose piles reach its upper height. -/
  eligible_iff : ∀ (j : Nat) (high : Chips) (pot : Pot),
    (StakeCall.heights calls)[j]? = some high → s.pots[j]? = some pot →
    ∀ p, p ∈ pot.eligible ↔ p ∈ StakeCall.standing calls ∧ high ≤ StakeCall.pile calls p
  /-- It holds the chips between its two heights, the last pot also those above. -/
  amount_eq : ∀ (j : Nat) (low high : Chips) (pot : Pot),
    (0 :: StakeCall.heights calls)[j]? = some low → (StakeCall.heights calls)[j]? = some high →
    s.pots[j]? = some pot →
    pot.amount = ((StakeCall.chips calls).filter fun chip =>
      low < chip.2 ∧ (chip.2 ≤ high ∨ j + 1 = s.pots.length)).card
  /-- With nobody standing nobody can win the chips, if there are any. -/
  unwinnable : StakeCall.standing calls = ∅ →
    s.pots = if StakeCall.chips calls = ∅ then [] else [⟨(StakeCall.chips calls).card, ∅⟩]
  amount_pos : ∀ pot ∈ s.pots, 0 < pot.amount
  total_eq : s.total = (StakeCall.chips calls).card
  sum_amount : (s.pots.map Pot.amount).sum = s.total
  /-- Fewer players can win a later pot, but always some, out of those of the pot before. -/
  shrinking : s.pots.Pairwise fun earlier later =>
    (∃ p, p ∈ later.eligible) ∧ (∀ p ∈ later.eligible, p ∈ earlier.eligible) ∧
      ∃ p ∈ earlier.eligible, p ∉ later.eligible

section Partition
variable {calls : List StakeCall}

theorem heights_ne_nil (h : (StakeCall.standing calls).Nonempty) :
    StakeCall.heights calls ≠ [] := by
  obtain ⟨p, hp⟩ := h
  exact List.ne_nil_of_mem (mem_heights.mpr ⟨p, hp, rfl⟩)

theorem pots_after_of_standing (h : (StakeCall.standing calls).Nonempty) :
    (after calls).pots = (after calls).potsAbove 0 (StakeCall.heights calls) := by
  unfold pots
  rw [levels_after]
  split
  · next hnil => exact absurd hnil (heights_ne_nil h)
  · rfl

theorem pots_after_of_none (h : StakeCall.standing calls = ∅) :
    (after calls).pots =
      if StakeCall.chips calls = ∅ then [] else [⟨(StakeCall.chips calls).card, ∅⟩] := by
  have hnil : (after calls).levels = [] := by
    rw [levels_after, StakeCall.heights, h, Finset.image_empty, Finset.sort_empty]
  unfold pots
  rw [hnil]
  simp only [total_after, Finset.card_eq_zero]

theorem length_pots_after (h : (StakeCall.standing calls).Nonempty) :
    (after calls).pots.length = (StakeCall.heights calls).length := by
  rw [pots_after_of_standing h, length_potsAbove (heights_ne_nil h)]

/-- Every pot lies between two heights. -/
theorem exists_heights {j : Nat} (hj : j < (StakeCall.heights calls).length) :
    ∃ low high, (0 :: StakeCall.heights calls)[j]? = some low ∧
      (StakeCall.heights calls)[j]? = some high ∧ low < high := by
  have hj' : j < (0 :: StakeCall.heights calls).length := Nat.lt_succ_of_lt hj
  have hascending : (0 :: StakeCall.heights calls).Pairwise (· < ·) := by
    refine List.pairwise_cons.mpr ⟨fun l hl => ?_, heights_ascending⟩
    obtain ⟨p, hp, rfl⟩ := mem_heights.mp hl
    exact mem_contributors.mp (Finset.mem_filter.mp hp).1
  refine ⟨_, _, List.getElem?_eq_getElem hj', List.getElem?_eq_getElem hj, ?_⟩
  exact List.pairwise_iff_getElem.mp hascending j (j + 1) _ (Nat.succ_lt_succ hj)
    (Nat.lt_succ_self j)

theorem getElem?_pots_after {j : Nat} {low high : Chips}
    (h : (StakeCall.standing calls).Nonempty)
    (hlow : (0 :: StakeCall.heights calls)[j]? = some low)
    (hhigh : (StakeCall.heights calls)[j]? = some high) :
    (after calls).pots[j]? = some
      ⟨((StakeCall.chips calls).filter fun chip => low < chip.2 ∧
          (chip.2 ≤ high ∨ j + 1 = (after calls).pots.length)).card,
        (after calls).reaching high⟩ := by
  rw [length_pots_after h, pots_after_of_standing h, getElem?_potsAbove hlow hhigh,
    Option.some_inj]
  refine congrArg (Pot.mk · _) ?_
  split
  · next hlast => simp only [above_after, hlast, or_true, and_true]
  · next hmore => simp only [between_after, hmore, or_false]

/-- Some chip lies in every pot: the topmost one of a pile that ends there. -/
theorem chips_between_pos {low high : Chips} (hlt : low < high)
    (hhigh : high ∈ StakeCall.heights calls) (last : Prop) [Decidable last] :
    0 < ((StakeCall.chips calls).filter fun chip =>
      low < chip.2 ∧ (chip.2 ≤ high ∨ last)).card := by
  obtain ⟨p, hp, rfl⟩ := mem_heights.mp hhigh
  refine Finset.card_pos.mpr ⟨⟨p, StakeCall.pile calls p⟩, Finset.mem_filter.mpr ⟨?_, ?_⟩⟩
  · refine Finset.mem_sigma.mpr ⟨(Finset.mem_filter.mp hp).1, Finset.mem_Icc.mpr ⟨?_, ?_⟩⟩
    · exact Nat.lt_of_le_of_lt (Nat.zero_le _) hlt
    · exact Nat.le_refl _
  · exact ⟨hlt, .inl (Nat.le_refl _)⟩

/-- Higher piles are fewer, but whoever's pile ends at a height reaches it. -/
theorem reaching_shrinks {low high : Chips} (hlt : low < high)
    (hlow : low ∈ StakeCall.heights calls) (hhigh : high ∈ StakeCall.heights calls) :
    (∃ p, p ∈ (after calls).reaching high) ∧
      (∀ p ∈ (after calls).reaching high, p ∈ (after calls).reaching low) ∧
      ∃ p ∈ (after calls).reaching low, p ∉ (after calls).reaching high := by
  simp only [mem_reaching_after]
  obtain ⟨p, hp, hpile⟩ := mem_heights.mp hhigh
  obtain ⟨q, hq, hqile⟩ := mem_heights.mp hlow
  refine ⟨⟨p, hp, Nat.le_of_eq hpile.symm⟩, fun r hr => ⟨hr.1, ?_⟩, q, ⟨hq, ?_⟩, fun hr => ?_⟩
  · exact Nat.le_of_lt (Nat.lt_of_lt_of_le hlt hr.2)
  · exact Nat.le_of_eq hqile.symm
  · exact Nat.not_le_of_lt hlt (Nat.le_trans hr.2 (Nat.le_of_eq hqile))

theorem amount_pos_after (h : (StakeCall.standing calls).Nonempty) {pot : Pot}
    (hpot : pot ∈ (after calls).pots) : 0 < pot.amount := by
  obtain ⟨j, hj⟩ := List.mem_iff_getElem?.mp hpot
  have hlt := (List.getElem?_eq_some_iff.mp hj).1
  rw [length_pots_after h] at hlt
  obtain ⟨low, high, hlow, hhigh, hlow_high⟩ := exists_heights hlt
  rw [getElem?_pots_after h hlow hhigh, Option.some_inj] at hj
  rw [← hj]
  exact chips_between_pos hlow_high (List.mem_of_getElem? hhigh) _

/-- Fewer and fewer players can win the pots, up to the last one, which somebody can win. -/
theorem pots_after_shrink (h : (StakeCall.standing calls).Nonempty) :
    (after calls).pots.Pairwise fun earlier later =>
      (∃ p, p ∈ later.eligible) ∧ (∀ p ∈ later.eligible, p ∈ earlier.eligible) ∧
        ∃ p ∈ earlier.eligible, p ∉ later.eligible := by
  have hpot : ∀ (j : Nat) (hj : j < (after calls).pots.length),
      ∃ hj' : j < (StakeCall.heights calls).length,
        ((after calls).pots[j]).eligible = (after calls).reaching (StakeCall.heights calls)[j] := by
    intro j hj
    have hj' : j < (StakeCall.heights calls).length := length_pots_after h ▸ hj
    obtain ⟨low, high, hlow, hhigh, -⟩ := exists_heights hj'
    have hat := getElem?_pots_after h hlow hhigh
    rw [List.getElem?_eq_getElem hj, Option.some_inj] at hat
    rw [List.getElem?_eq_getElem hj', Option.some_inj] at hhigh
    exact ⟨hj', by rw [hat, hhigh]⟩
  refine List.pairwise_iff_getElem.mpr fun i j hi hj hij => ?_
  obtain ⟨hi', hearlier⟩ := hpot i hi
  obtain ⟨hj', hlater⟩ := hpot j hj
  rw [hearlier, hlater]
  exact reaching_shrinks (List.pairwise_iff_getElem.mp heights_ascending i j hi' hj' hij)
    (List.getElem_mem hi') (List.getElem_mem hj')

theorem partitionedBy_of_standing (h : (StakeCall.standing calls).Nonempty) :
    (after calls).PartitionedBy calls where
  length_eq _ := length_pots_after h
  eligible_iff j high pot hhigh hpot p := by
    obtain ⟨low, _, hlow, -⟩ := exists_heights (List.getElem?_eq_some_iff.mp hhigh).1
    rw [getElem?_pots_after h hlow hhigh, Option.some_inj] at hpot
    rw [← hpot]
    exact mem_reaching_after
  amount_eq j low high pot hlow hhigh hpot := by
    rw [getElem?_pots_after h hlow hhigh, Option.some_inj] at hpot
    rw [← hpot]
  unwinnable hnone := absurd hnone h.ne_empty
  amount_pos _ hpot := amount_pos_after h hpot
  total_eq := total_after
  sum_amount := sum_pots _
  shrinking := pots_after_shrink h

/-- With nobody standing there are no heights and at most one pot. -/
theorem partitionedBy_of_none (h : StakeCall.standing calls = ∅) :
    (after calls).PartitionedBy calls := by
  have hpots := pots_after_of_none h
  have hheights : StakeCall.heights calls = [] := by
    rw [StakeCall.heights, h, Finset.image_empty, Finset.sort_empty]
  refine
    { length_eq := fun hsome => absurd h hsome.ne_empty
      eligible_iff := fun j high pot hhigh => ?_
      amount_eq := fun j low high pot _ hhigh => ?_
      unwinnable := fun _ => hpots
      amount_pos := fun pot hpot => ?_
      total_eq := total_after
      sum_amount := sum_pots _
      shrinking := ?_ }
  · simp [hheights] at hhigh
  · simp [hheights] at hhigh
  · rw [hpots] at hpot
    split at hpot
    · cases hpot
    · next hchips =>
        rw [List.mem_singleton.mp hpot]
        exact Finset.card_pos.mpr (Finset.nonempty_iff_ne_empty.mpr hchips)
  · rw [hpots]
    split
    · exact List.Pairwise.nil
    · exact List.pairwise_singleton _ _

end Partition

/-- Whatever contributions and folds come in whatever order, the pots partition the chips that
were put in along the heights of the standing piles. -/
theorem pots_partition (calls : List StakeCall) : (after calls).PartitionedBy calls := by
  rcases Finset.eq_empty_or_nonempty (StakeCall.standing calls) with hnone | hstanding
  · exact partitionedBy_of_none hnone
  · exact partitionedBy_of_standing hstanding

end Stakes
end Holdem
