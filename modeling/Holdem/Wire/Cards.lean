import Holdem.HandValue
import Holdem.NatMap
import Holdem.NatSet
import Holdem.Player
import Holdem.Wire.Tree

/-!
# Numbers and cards as trees

Numbers keep to the width of what they count: 64 bits for players, tables, seats and hands, 32 for
chips, 16 for buy-ins in blinds and 8 for card values.
-/
namespace Holdem.Wire

def wide? : Reader Nat := natural? 18446744073709551615

def chips? : Reader Chips := natural? maxChips

def short? : Reader Nat := natural? 65535

def byte? : Reader Nat := natural? 255

/-- A number that is written out as the name of a field: digits without a leading zero. -/
def key? (s : String) : Option Nat :=
  let cs := s.toList
  if cs.isEmpty || !cs.all Char.isDigit || (cs.head? = some '0' && 1 < cs.length) then none
  else wide? (natural (cs.foldl (fun n c => n * 10 + (c.toNat - '0'.toNat)) 0))

/-- A record whose fields are named by numbers. -/
def map? {α : Type} (read : Reader α) : Reader (NatMap α)
  | .record fields => do
      let entries ← fields.mapM fun (name, t) => do return (← key? name, ← read t)
      return .ofList entries
  | _ => none

def map {α : Type} (write : α → Tree) (m : NatMap α) : Tree :=
  .record (m.entries.map fun e => (toString e.1, write e.2))

/-- Entries as a list of pairs. -/
def entries {α : Type} (write : α → Tree) (es : List (Nat × α)) : Tree :=
  many (fun e => .list [natural e.1, write e.2]) es

def set? : Reader NatSet := fun t => (list? wide? t).map .ofList

def set (s : NatSet) : Tree := naturals s.members

def suits : List (String × Suit) :=
  [("Club", .club), ("Spade", .spade), ("Diamond", .diamond), ("Heart", .heart)]

def suit? : Reader Suit := plain? suits

def suit : Suit → Tree := plain suits

def card? : Reader Card := fun t => do
  let (value, suit) ← pair? byte? suit? t
  return { value, suit }

def card (c : Card) : Tree := .list [natural c.value, suit c.suit]

def cards? : Reader (List Card) := list? card?

def cards : List Card → Tree := many card

def ranks : List (String × Rank) :=
  [("HighCard", .highCard), ("OnePair", .onePair), ("TwoPair", .twoPair),
    ("ThreeOfAKind", .threeOfAKind), ("Straight", .straight), ("Flush", .flush),
    ("FullHouse", .fullHouse), ("FourOfAKind", .fourOfAKind), ("StraightFlush", .straightFlush)]

def rank? : Reader Rank := plain? ranks

def rank : Rank → Tree := plain ranks

def handValue? : Reader HandValue := fun t => do
  let [r, v] ← t.fields? ["rank", "values"] 0 | none
  return ⟨← rank? r, ← list? byte? v⟩

def handValue (v : HandValue) : Tree :=
  .record [("rank", rank v.rank), ("values", naturals v.values)]

end Holdem.Wire
