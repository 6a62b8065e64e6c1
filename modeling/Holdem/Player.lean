/-!
# Chips, players and tables

Chips are counted in whole chips. A stack, a bet and everything on a table together have to fit
under `maxChips`; sums are taken exactly and compared with that limit where it matters, and those
that nobody compares with it go round. Players and tables are known by number, a seat by its place
at the table, counted from zero.
-/
namespace Holdem

/-- Whole chips. -/
abbrev Chips := Nat

/-- A sum of chips starts from none. -/
instance : Zero Chips := ⟨0⟩

/-- The most chips that can be counted anywhere. -/
def maxChips : Chips := 4294967295

/-- A sum of chips that goes on from none past the most that can be counted. -/
def wrapped (sum : Chips) : Chips := sum % (maxChips + 1)

/-- A sum of chips that stops at the most that can be counted. -/
def cappedAdd (a b : Chips) : Chips := min (a + b) maxChips

/-- A product of chips that stops at the most that can be counted. -/
def cappedMul (a b : Chips) : Chips := min (a * b) maxChips

abbrev PlayerId := Nat

abbrev TableId := Nat

abbrev SeatIndex := Nat

def playerText (player : PlayerId) : String := s!"player#{player}"

def tableText (table : TableId) : String := s!"table#{table}"

/-- A seated player. What only matters for the hand being played is kept with the hand. -/
structure Player where
  id : PlayerId
  name : String
  stack : Chips
  seat : SeatIndex
deriving Repr, DecidableEq, Inhabited

/-- The forced bets of a hand. -/
structure Blinds where
  small : Chips
  big : Chips
deriving Repr, DecidableEq, Inhabited

def Blinds.text (b : Blinds) : String := s!"{b.small}/{b.big}"

end Holdem
