import Holdem.Deck
import Mathlib.Data.Nat.Factorial.Basic

/-!
# Shuffled decks

Whatever words it uses up, a shuffle swaps every place with one at or before it, so it loses no
card and makes none. What is left of a draw stays below the product of the bounds of the places
that it is still good for. A deck stays an arrangement of the same cards however it is drawn from
and shuffled, and its cards come out in the order in which they lie.
-/
namespace Holdem

namespace Shuffle

/-- The swaps that are made for some places. -/
def picks : List Nat → Chunk → WordStream → List (Nat × Nat)
  | [], _, _ => []
  | i :: rest, c, s =>
      let (c, s) := c.refill i s
      let (j, c) := c.take i
      (i, j) :: picks rest c s

/-- A chunk whose value fits the places from `i` on that it is left for. -/
def Chunk.Fits (c : Chunk) (i : Nat) : Prop := c.left ≠ 0 → c.value < (i + 1).ascFactorial c.left

section Picks
variable {c : Chunk} {i : Nat}

theorem ascFactorial_succ_left (n k : Nat) :
    n.ascFactorial (k + 1) = n * (n + 1).ascFactorial k := by
  rw [Nat.ascFactorial_succ, ← Nat.succ_ascFactorial]

theorem product_spec (fuel prod next : Nat) :
    ∃ k, product fuel prod next = (prod * next.ascFactorial k, next + k) := by
  induction fuel generalizing prod next with
  | zero => exact ⟨0, by simp [product]⟩
  | succ fuel ih =>
      rw [product]
      split
      · obtain ⟨k, hk⟩ := ih (prod * next) (next + 1)
        refine ⟨k + 1, ?_⟩
        rw [hk, ascFactorial_succ_left, Nat.mul_assoc, Nat.add_assoc, Nat.add_comm 1 k]
      · exact ⟨0, by simp⟩

/-- After a refill there is something left to take. -/
theorem Chunk.Fits.refill (h : c.Fits i) (s : WordStream) :
    (c.refill i s).1.left ≠ 0 ∧
      (c.refill i s).1.value < (i + 1).ascFactorial (c.refill i s).1.left := by
  by_cases hleft : c.left = 0
  · obtain ⟨k, hk⟩ := product_spec 32 (i + 1) (i + 2)
    have hcount : i + 2 + k - (i + 1) = k + 1 := by omega
    simp only [Chunk.refill, if_pos hleft, hk, hcount]
    refine ⟨Nat.succ_ne_zero k, ?_⟩
    rw [ascFactorial_succ_left]
    exact s.below_lt (Nat.mul_pos i.succ_pos (Nat.ascFactorial_pos (i + 1) k))
  · simp only [Chunk.refill, if_neg hleft]
    exact ⟨hleft, h hleft⟩

/-- What is taken from a chunk is a place at or before the one it is taken for. -/
theorem Chunk.take_spec (hleft : c.left ≠ 0) (hvalue : c.value < (i + 1).ascFactorial c.left) :
    (c.take i).1 ≤ i ∧ (c.take i).2.Fits (i + 1) := by
  by_cases hone : c.left = 1
  · rw [hone, Nat.ascFactorial_succ, Nat.ascFactorial_zero, Nat.mul_one] at hvalue
    simp only [Chunk.take, if_pos hone]
    exact ⟨Nat.le_of_lt_succ hvalue, fun hzero => absurd rfl hzero⟩
  · obtain ⟨k, hk⟩ := Nat.exists_eq_succ_of_ne_zero hleft
    simp only [Chunk.take, if_neg hone]
    refine ⟨Nat.le_of_lt_succ (Nat.mod_lt _ i.succ_pos), fun _ => ?_⟩
    rw [hk, Nat.succ_eq_add_one, ascFactorial_succ_left] at hvalue
    rw [hk]
    exact Nat.div_lt_of_lt_mul hvalue

/-- Over consecutive places, each is swapped once, with a place at or before it. The induction is
over the places, and the chunk fits those to come. -/
theorem picks_spec (n : Nat) (h : c.Fits i) (s : WordStream) :
    (picks (List.range' i n) c s).map Prod.fst = List.range' i n ∧
      ∀ e ∈ picks (List.range' i n) c s, e.2 ≤ e.1 := by
  induction n generalizing i c s with
  | zero => exact ⟨rfl, by simp [picks]⟩
  | succ n ih =>
      obtain ⟨hleft, hvalue⟩ := h.refill s
      obtain ⟨hle, hfits⟩ := Chunk.take_spec hleft hvalue
      obtain ⟨hplaces, hrest⟩ := ih hfits (c.refill i s).2
      rw [List.range'_succ, picks]
      refine ⟨congrArg (i :: ·) hplaces, fun e he => ?_⟩
      rcases List.mem_cons.mp he with rfl | he
      · exact hle
      · exact hrest e he

end Picks

section Swaps
variable {α : Type}

/-- Shuffling is making the swaps one after another. -/
theorem swaps_eq_foldl (places : List Nat) (cards : Array α) (c : Chunk) (s : WordStream) :
    (swaps places cards c s).1 =
      (picks places c s).foldl (fun cards e => cards.swapIfInBounds e.1 e.2) cards := by
  induction places generalizing cards c s with
  | nil => rfl
  | cons i rest ih => exact ih _ _ _

theorem perm_swapIfInBounds (cards : Array α) (i j : Nat) :
    (cards.swapIfInBounds i j).toList.Perm cards.toList := by
  unfold Array.swapIfInBounds
  split
  · split
    · exact Array.perm_iff_toList_perm.mp (Array.swap_perm ..)
    · exact .refl _
  · exact .refl _

theorem perm_swaps (places : List Nat) (cards : Array α) (c : Chunk) (s : WordStream) :
    (swaps places cards c s).1.toList.Perm cards.toList := by
  induction places generalizing cards c s with
  | nil => exact .refl _
  | cons i rest ih => exact (ih _ _ _).trans (perm_swapIfInBounds cards _ _)

end Swaps
end Shuffle

namespace Deck
variable {d : Deck}

/-! ## Shuffling -/

/-- The swaps of the next shuffle. -/
def swapsToCome (d : Deck) : List (Nat × Nat) :=
  Shuffle.picks (List.range d.cards.size) {} d.words

theorem cards_reset : d.reset.cards =
    d.swapsToCome.foldl (fun cards e => cards.swapIfInBounds e.1 e.2) d.cards :=
  Shuffle.swaps_eq_foldl _ _ _ _

/-- There is one swap for each place, with a place at or before it. -/
theorem swapsToCome_spec (d : Deck) :
    d.swapsToCome.map Prod.fst = List.range d.cards.size ∧
      ∀ e ∈ d.swapsToCome, e.2 ≤ e.1 ∧ e.1 < d.cards.size := by
  have hfirst : Shuffle.Chunk.Fits {} 0 := fun _ => Nat.zero_lt_one
  obtain ⟨hplaces, hle⟩ := Shuffle.picks_spec d.cards.size hfirst d.words
  rw [← List.range_eq_range'] at hplaces hle
  refine ⟨hplaces, fun e he => ⟨hle e he, ?_⟩⟩
  exact List.mem_range.mp (hplaces ▸ List.mem_map_of_mem he)

theorem perm_reset (d : Deck) : d.reset.cards.toList.Perm d.cards.toList :=
  Shuffle.perm_swaps _ _ _ _

/-! ## Drawing -/

theorem draw_of_lt (h : d.drawn < d.cards.toList.length) :
    d.draw = .ok (d.cards.toList[d.drawn], { d with drawn := d.drawn + 1 }) := by
  rw [draw, Array.getElem?_eq_getElem h]
  rfl

theorem draw_of_le (h : d.cards.toList.length ≤ d.drawn) : d.draw = .error .exhausted := by
  rw [draw, Array.getElem?_eq_none h]

/-- The cards that are drawn are the next ones. -/
theorem cards_drawUpTo (d : Deck) (n : Nat) :
    (d.drawUpTo n).1 = (d.cards.toList.drop d.drawn).take n := by
  induction n generalizing d with
  | zero => rw [List.take_zero]; rfl
  | succ n ih =>
      rw [drawUpTo]
      rcases Nat.lt_or_ge d.drawn d.cards.toList.length with hlt | hge
      · rw [draw_of_lt hlt, List.drop_eq_getElem_cons hlt, List.take_succ_cons]
        exact congrArg (_ :: ·) (ih { d with drawn := d.drawn + 1 })
      · rw [draw_of_le hge, List.drop_eq_nil_of_le hge, List.take_nil]

/-- What comes of so many draws, one after another. -/
def draws : Nat → Deck → List (Except DeckError Card)
  | 0, _ => []
  | n + 1, d =>
      match d.draw with
      | .ok (card, d) => .ok card :: draws n d
      | .error e => .error e :: draws n d

/-- The next cards come out in their order, and then there are no more. -/
theorem draws_eq (n : Nat) (d : Deck) :
    draws n d = ((d.cards.toList.drop d.drawn).take n).map .ok ++
      List.replicate (n - (d.cards.toList.length - d.drawn)) (.error .exhausted) := by
  induction n generalizing d with
  | zero => simp [draws]
  | succ n ih =>
      rw [draws]
      rcases Nat.lt_or_ge d.drawn d.cards.toList.length with hlt | hge
      · have hcount : n + 1 - (d.cards.toList.length - d.drawn) =
            n - (d.cards.toList.length - (d.drawn + 1)) := by
          omega
        rw [draw_of_lt hlt, List.drop_eq_getElem_cons hlt, List.take_succ_cons, List.map_cons,
          List.cons_append, hcount]
        exact congrArg (_ :: ·) (ih { d with drawn := d.drawn + 1 })
      · have hrest := ih d
        have hnone : d.cards.toList.length - d.drawn = 0 := Nat.sub_eq_zero_of_le hge
        rw [List.drop_eq_nil_of_le hge, List.take_nil, List.map_nil, List.nil_append, hnone,
          Nat.sub_zero] at hrest ⊢
        rw [draw_of_le hge, List.replicate_succ]
        exact congrArg (_ :: ·) hrest

/-! ## However a deck is used -/

/-- What can be done with a deck. -/
inductive Use where
  | draw
  | reset
deriving Repr, DecidableEq

def use (d : Deck) : Use → Deck
  | .draw =>
      match d.draw with
      | .ok (_, d) => d
      | .error _ => d
  | .reset => d.reset

/-- A deck after it was used in some ways, one after another. -/
def after (d : Deck) (uses : List Use) : Deck := uses.foldl use d

theorem perm_use (d : Deck) (u : Use) : (d.use u).cards.toList.Perm d.cards.toList := by
  cases u with
  | reset => exact perm_reset d
  | draw =>
      simp only [use]
      split
      · next card d' hdraw =>
          rcases Nat.lt_or_ge d.drawn d.cards.toList.length with hlt | hge
          · rw [draw_of_lt hlt] at hdraw
            cases hdraw
            exact .refl _
          · rw [draw_of_le hge] at hdraw
            cases hdraw
      · exact .refl _

theorem perm_after (d : Deck) (uses : List Use) :
    (d.after uses).cards.toList.Perm d.cards.toList := by
  induction uses generalizing d with
  | nil => exact .refl _
  | cons u rest ih => exact (ih (d.use u)).trans (perm_use d u)

/-- A full deck stays one, whatever words its shuffles use up. -/
theorem perm_after_ofWords (word : Nat → UInt32) (uses : List Use) :
    ((ofWords word).after uses).cards.toList.Perm Card.fullDeck :=
  perm_after _ uses

end Deck
end Holdem
