import Holdem.Table.Error

/-!
# The settings of a table

Buy-ins are limited in big blinds. A table is only opened with settings under which every seat
can be bought in at the most and dealt two cards.
-/
namespace Holdem

/-- The most seats that can be dealt to: two cards for each and five for the board. -/
def maxSeats : Nat := 23

structure TableConfig where
  name : String := "Default Table"
  maxPlayers : Nat := 9
  smallBlind : Chips := 5
  bigBlind : Chips := 10
  minBuyInBlinds : Nat := 20
  maxBuyInBlinds : Nat := 100
  /-- Whether a hand starts as soon as two players with chips are seated. -/
  autoStart : Bool := true
  /-- Makes every shuffle at the table reproducible. -/
  shuffleSeed : Option Nat := none
deriving Repr, DecidableEq, Inhabited

namespace TableConfig

def blinds (c : TableConfig) : Blinds := ⟨c.smallBlind, c.bigBlind⟩

/-- Every seat bought in at the most. -/
def fullTable (c : TableConfig) : Nat := c.maxBuyInBlinds * c.bigBlind * c.maxPlayers

def validate (c : TableConfig) : Except TableError Unit :=
  if c.smallBlind = 0 then .error (.invalidConfig "small blind must be positive")
  else if c.bigBlind ≤ c.smallBlind then
    .error (.invalidConfig "big blind must be greater than small blind")
  else if c.maxBuyInBlinds < c.minBuyInBlinds ∨ c.minBuyInBlinds = 0 then
    .error (.invalidConfig "buy-in range must be non-empty and start above zero")
  else if c.maxPlayers < 2 ∨ maxSeats < c.maxPlayers then
    .error (.invalidConfig "max players must be between 2 and 23")
  else if maxChips < c.fullTable then
    .error (.invalidConfig "maximum buy-ins for every seat overflow the chip count")
  else .ok ()

def minBuyIn (c : TableConfig) : Chips := cappedMul c.bigBlind c.minBuyInBlinds

def maxBuyIn (c : TableConfig) : Chips := cappedMul c.bigBlind c.maxBuyInBlinds

/-- Fails unless a stack is within the buy-in range. -/
def checkBuyIn (c : TableConfig) (stack : Chips) : Except TableError Unit :=
  if stack < c.minBuyIn ∨ c.maxBuyIn < stack then .error (.buyIn stack c.minBuyIn c.maxBuyIn)
  else .ok ()

end TableConfig
end Holdem
