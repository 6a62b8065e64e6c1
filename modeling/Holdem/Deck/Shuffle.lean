/-!
# Shuffling by swaps

A shuffle swaps each place in turn with a place at or before it. The places are drawn several at
a time: one draw below the product `m (m + 1) ... (m + k)` is taken apart by division into a place
for each factor, as long as the product fits into a word.
-/
namespace Holdem

/-- An endless stream of random words of which some have been used. -/
structure WordStream where
  word : Nat → UInt32
  used : Nat := 0

namespace WordStream

/-- The next word, and the stream after it. -/
def next (s : WordStream) : Nat × WordStream :=
  ((s.word s.used).toNat, { s with used := s.used + 1 })

/-- How many values a word can take. -/
def wordSize : Nat := 4294967296

/-- A number below `n`: the high half of a word times `n`. When the low half lies so high that
more digits could carry into it, a second word settles whether they do. -/
def below (s : WordStream) (n : Nat) : Nat × WordStream :=
  let first := s.next
  let high := first.1 * n / wordSize
  let low := first.1 * n % wordSize
  if wordSize - n < low then
    let second := first.2.next
    (if wordSize ≤ low + second.1 * n / wordSize then high + 1 else high, second.2)
  else (high, first.2)

theorem below_lt (s : WordStream) {n : Nat} (hn : 0 < n) : (s.below n).1 < n := by
  have hx : (s.word s.used).toNat < 4294967296 := (s.word s.used).toNat_lt
  have hmul : ((s.word s.used).toNat + 1) * n ≤ 4294967296 * n := Nat.mul_le_mul_right n hx
  rw [Nat.add_mul, Nat.one_mul] at hmul
  have hone : (s.next).1 = (s.word s.used).toNat := rfl
  simp only [below, hone, wordSize, apply_ite Prod.fst]
  split
  · split <;> omega
  · omega

end WordStream

namespace Shuffle

/-- A product of successive factors that fits into a word, and the factor that no longer does. At
least doubling each time, it has at most `fuel = 32` factors. -/
def product : Nat → Nat → Nat → Nat × Nat
  | 0, prod, next => (prod, next)
  | fuel + 1, prod, next =>
      if prod * next < WordStream.wordSize then product fuel (prod * next) (next + 1)
      else (prod, next)

/-- What is left of the last draw: its value, and for how many more places it is good. -/
structure Chunk where
  value : Nat := 0
  left : Nat := 1
deriving Repr, DecidableEq

/-- Draws afresh for the places that start with `i` if the last draw is used up. -/
def Chunk.refill (c : Chunk) (i : Nat) (s : WordStream) : Chunk × WordStream :=
  if c.left = 0 then
    let (prod, next) := product 32 (i + 1) (i + 2)
    let (value, s) := s.below prod
    (⟨value, next - (i + 1)⟩, s)
  else (c, s)

/-- The place to swap place `i` with. -/
def Chunk.take (c : Chunk) (i : Nat) : Nat × Chunk :=
  if c.left = 1 then (c.value, { c with left := 0 })
  else (c.value % (i + 1), ⟨c.value / (i + 1), c.left - 1⟩)

/-- Swaps the places of a list in turn, each with one at or before it. -/
def swaps {α : Type} : List Nat → Array α → Chunk → WordStream → Array α × WordStream
  | [], cards, _, s => (cards, s)
  | i :: rest, cards, c, s =>
      let (c, s) := c.refill i s
      let (j, c) := c.take i
      swaps rest (cards.swapIfInBounds i j) c s

end Shuffle

/-- Shuffles an array in place. -/
def shuffle {α : Type} (cards : Array α) (s : WordStream) : Array α × WordStream :=
  Shuffle.swaps (List.range cards.size) cards {} s

end Holdem
