import Holdem.Hand.State

/-!
# What everybody may see of a table
-/
namespace Holdem

/-- What is seen of one seat. The bet is that of the current betting round. -/
structure SeatView where
  player : PlayerId
  name : String
  seat : SeatIndex
  stack : Chips
  bet : Chips
  dealtIn : Bool
  folded : Bool
  allIn : Bool
deriving Repr, DecidableEq

structure Snapshot where
  table : TableId
  name : String
  hand : Option Nat := none
  phase : Phase := .waiting
  board : List Card := []
  pots : List Pot := []
  potTotal : Chips := 0
  highestBet : Chips := 0
  dealer : Option PlayerId := none
  current : Option PlayerId := none
  seats : List SeatView := []
deriving Repr, DecidableEq

namespace Snapshot

/-- A table where nobody sits. -/
def empty (table : TableId) (name : String) : Snapshot := { table, name }

def seatOf (s : Snapshot) (player : PlayerId) : Option SeatView :=
  s.seats.find? (·.player = player)

/-- Stacks and all that is in the middle. -/
def totalChips (s : Snapshot) : Chips := (s.seats.map (·.stack)).sum + s.potTotal

/-- The same, added up without looking whether it still fits. -/
def countedChips (s : Snapshot) : Chips := wrapped s.totalChips

end Snapshot

/-- What is seen of a player's seat, between hands or during one. -/
def seatView (hand : Option Hand) (p : Player) : SeatView :=
  { player := p.id
    name := p.name
    seat := p.seat
    stack := p.stack
    bet := hand.elim 0 (·.round.contribution p.id)
    dealtIn := hand.any (·.isDealtIn p.id)
    folded := hand.any (·.isFolded p.id)
    allIn := hand.any (·.isAllIn p.id) }

/-- The public view of a roster and the hand that is played at it, if any. -/
def publicView (table : TableId) (name : String) (roster : Roster) (hand : Option Hand) :
    Snapshot :=
  let seats := roster.players.map (seatView hand)
  match hand with
  | none => { table, name, seats }
  | some h =>
      { table, name, seats
        hand := some h.number
        phase := h.phase
        board := h.board
        pots := h.pots
        potTotal := h.potTotal
        highestBet := h.round.highestBet
        dealer := some h.dealer
        current := h.currentPlayer }

end Holdem
