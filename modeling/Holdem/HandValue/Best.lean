import Holdem.HandValue
import Holdem.NatSet

/-!
# The best hand among some cards

The cards may be any number and may repeat. They are looked at in three ways: the first suit that
has five of them, the distinct values in descending order, and the values grouped by how often
they occur. The first rank that can be read off decides.
-/
namespace Holdem.HandValue

/-- The distinct values of some cards, highest first. -/
def distinctValues (cards : List Card) : List Nat :=
  (NatSet.ofList (cards.map Card.value)).members.reverse

/-- How many of the cards have value `v`. -/
def multiplicity (cards : List Card) (v : Nat) : Nat :=
  cards.countP fun c => c.value = v

/-- The values of all the cards, highest first, a value as often as it occurs. -/
def sortedValues (cards : List Card) : List Nat :=
  (distinctValues cards).flatMap fun v => List.replicate (multiplicity cards v) v

/-- Each value with its multiplicity: larger groups first, of equal groups the higher value. -/
def groups (cards : List Card) : List (Nat × Nat) :=
  (List.range (cards.length + 1)).reverse.flatMap fun n =>
    ((distinctValues cards).filter fun v => multiplicity cards v = n).map fun v => (n, v)

/-- The high card of the first five neighbours that span exactly four. -/
def firstRun? : List Nat → Option Nat
  | a :: b :: c :: d :: e :: rest =>
      if a - e = 4 then some a else firstRun? (b :: c :: d :: e :: rest)
  | _ => none

/-- The high card of the best straight, with the ace also counted below the deuce. -/
def straightHigh? (cards : List Card) : Option Nat :=
  let values := distinctValues cards
  firstRun? (if values.head? = some ace then values ++ [1] else values)

/-- The cards of the first suit that has five or more of them. -/
def flushCards? (cards : List Card) : Option (List Card) :=
  (Suit.all.map fun s => cards.filter fun c => c.suit = s).find? fun suited => 5 ≤ suited.length

/-- The `n` highest values that are not in `taken`. -/
def kickers (cards : List Card) (taken : List Nat) (n : Nat) : List Nat :=
  ((distinctValues cards).filter fun v => v ∉ taken).take n

/-- What is left once straight flushes, quads, full houses, flushes and straights are ruled out. -/
def ofGroups (cards : List Card) : List (Nat × Nat) → HandValue
  | (3, trips) :: _ => ⟨.threeOfAKind, trips :: kickers cards [trips] 2⟩
  | (2, high) :: (2, low) :: _ => ⟨.twoPair, high :: low :: kickers cards [high, low] 1⟩
  | (2, pair) :: _ => ⟨.onePair, pair :: kickers cards [pair] 3⟩
  | _ => ⟨.highCard, kickers cards [] 5⟩

/-- Four of a kind or a full house, read off the groups. -/
def quadsOrFull? (cards : List Card) : List (Nat × Nat) → Option HandValue
  | (4, quad) :: _ => some ⟨.fourOfAKind, quad :: kickers cards [quad] 1⟩
  | (3, trips) :: rest =>
      (rest.find? fun g => 2 ≤ g.1).map fun pair => ⟨.fullHouse, [trips, pair.2]⟩
  | _ => none

/-- The best hand of five that the cards hold. -/
def best (cards : List Card) : HandValue :=
  let flush := flushCards? cards
  match flush.bind straightHigh? with
  | some high => ⟨.straightFlush, [high]⟩
  | none =>
    match quadsOrFull? cards (groups cards) with
    | some value => value
    | none =>
      match flush with
      | some suited => ⟨.flush, (sortedValues suited).take 5⟩
      | none =>
        match straightHigh? cards with
        | some high => ⟨.straight, [high]⟩
        | none => ofGroups cards (groups cards)

end Holdem.HandValue
