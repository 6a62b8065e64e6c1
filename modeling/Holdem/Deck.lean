import Holdem.Card
import Holdem.Deck.ChaCha
import Holdem.Deck.Shuffle

/-!
# The deck

A deck is an arrangement of cards of which the first `drawn` are out, with the random words that
its next shuffles will use up. Shuffling puts every card back and rearranges them from the order
they are in.
-/
namespace Holdem

inductive DeckError where
  | exhausted
deriving Repr, DecidableEq

def DeckError.message : DeckError → String
  | exhausted => "deck is exhausted"

structure Deck where
  cards : Array Card
  drawn : Nat := 0
  words : WordStream

namespace Deck

/-- A full deck in order, whose shuffles use up these words. -/
def ofWords (word : Nat → UInt32) : Deck :=
  { cards := Card.fullDeck.toArray, words := { word } }

/-- A full deck in order, whose shuffles are determined by the seed. -/
def seeded (seed : Nat) : Deck := ofWords (ChaCha.word seed.toUInt64)

def remaining (d : Deck) : Nat := d.cards.size - d.drawn

/-- The top card, and the deck without it. -/
def draw (d : Deck) : Except DeckError (Card × Deck) :=
  match d.cards[d.drawn]? with
  | some card => .ok (card, { d with drawn := d.drawn + 1 })
  | none => .error .exhausted

/-- Draws up to `n` cards, stopping when there are none left. -/
def drawUpTo (d : Deck) : Nat → List Card × Deck
  | 0 => ([], d)
  | n + 1 =>
      match d.draw with
      | .ok (card, d) =>
          let (cards, d) := d.drawUpTo n
          (card :: cards, d)
      | .error _ => ([], d)

/-- Puts every card back and shuffles. -/
def reset (d : Deck) : Deck :=
  let (cards, words) := shuffle d.cards d.words
  { cards, words }

end Deck
end Holdem
