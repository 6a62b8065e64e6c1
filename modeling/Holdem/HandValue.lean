import Holdem.Card

/-!
# The strength of a hand

A hand is worth its rank and then a list of card values that tell hands of one rank apart, the
most significant first. Hands compare as these lists compare once the place of the rank is put in
front of them: at the first difference, or else the list that ends sooner is the lesser.
-/
namespace Holdem

inductive Rank where
  | highCard
  | onePair
  | twoPair
  | threeOfAKind
  | straight
  | flush
  | fullHouse
  | fourOfAKind
  | straightFlush
deriving Repr, DecidableEq, Inhabited

namespace Rank

/-- The place of a rank among all the ranks, weakest first. -/
def place : Rank → Nat
  | highCard => 0
  | onePair => 1
  | twoPair => 2
  | threeOfAKind => 3
  | straight => 4
  | flush => 5
  | fullHouse => 6
  | fourOfAKind => 7
  | straightFlush => 8

def text : Rank → String
  | highCard => "hi"
  | onePair => "1p"
  | twoPair => "2p"
  | threeOfAKind => "3k"
  | straight => "s8"
  | flush => "fs"
  | fullHouse => "fh"
  | fourOfAKind => "4k"
  | straightFlush => "sf"

instance : Ord Rank := ⟨fun a b => compare a.place b.place⟩

theorem place_injective {a b : Rank} (h : a.place = b.place) : a = b := by
  cases a <;> cases b <;> simp_all [place]

end Rank

structure HandValue where
  rank : Rank
  values : List Nat
deriving Repr, DecidableEq, Inhabited

namespace HandValue

/-- The numbers by which hands compare. -/
def key (v : HandValue) : List Nat := v.rank.place :: v.values

theorem key_injective {a b : HandValue} (h : a.key = b.key) : a = b := by
  obtain ⟨r, u⟩ := a
  obtain ⟨s, v⟩ := b
  simp only [key, List.cons.injEq] at h
  rw [Rank.place_injective h.1, h.2]

/-- Compares two lists at their first difference. -/
def compareKeys : List Nat → List Nat → Ordering
  | [], [] => .eq
  | [], _ :: _ => .lt
  | _ :: _, [] => .gt
  | a :: u, b :: v => (compare a b).then (compareKeys u v)

instance : Ord HandValue := ⟨fun a b => compareKeys a.key b.key⟩

def text (v : HandValue) : String :=
  let kickers := String.intercalate "," (v.values.map valueText)
  v.rank.text ++ " [" ++ kickers ++ "]"

end HandValue
end Holdem
