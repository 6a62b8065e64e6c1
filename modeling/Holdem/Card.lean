/-!
# Playing cards

A card has a value, from the deuce (2) to the ace (14), and a suit. Values outside that range are
harmless: nothing below looks at more than their order. An ace counted low is written with value
one and printed like the ace.
-/
namespace Holdem

inductive Suit where
  | club
  | spade
  | diamond
  | heart
deriving Repr, DecidableEq, Inhabited

namespace Suit

/-- Every suit, lowest first. -/
def all : List Suit := [club, spade, diamond, heart]

/-- The place of a suit among all the suits. -/
def place : Suit → Nat
  | club => 0
  | spade => 1
  | diamond => 2
  | heart => 3

def symbol : Suit → String
  | club => "♣"
  | spade => "♠"
  | diamond => "♦"
  | heart => "♥"

instance : Ord Suit := ⟨fun a b => compare a.place b.place⟩

theorem mem_all (s : Suit) : s ∈ all := by cases s <;> decide

end Suit

/-- The value of an ace counted high. -/
def ace : Nat := 14

/-- How a card's value is written. -/
def valueText (v : Nat) : String :=
  if v = 1 ∨ v = ace then "A"
  else if v = 11 then "J"
  else if v = 12 then "Q"
  else if v = 13 then "K"
  else toString v

structure Card where
  value : Nat
  suit : Suit
deriving Repr, DecidableEq, Inhabited

namespace Card

/-- Cards are ordered by value, cards of one value by suit. -/
instance : Ord Card := ⟨fun a b => (compare a.value b.value).then (compare a.suit b.suit)⟩

/-- A card without padding, such as the ten of hearts. -/
def shortText (c : Card) : String :=
  valueText c.value ++ "/" ++ c.suit.symbol

/-- A card set flush right in a column four characters wide. -/
def text (c : Card) : String :=
  let t := c.shortText
  String.ofList (List.replicate (4 - t.length) ' ') ++ t

/-- The cards of a full deck, deuces first, the suits of each value in their order. -/
def fullDeck : List Card :=
  (List.range 13).flatMap fun i => Suit.all.map fun s => ⟨i + 2, s⟩

theorem length_fullDeck : fullDeck.length = 52 := by decide

theorem nodup_fullDeck : fullDeck.Nodup := by decide +kernel

end Card
end Holdem
