import Holdem.Table.Error

/-!
# The seats of a table

A roster is its seats in order, each of them empty or with a player in it. Everything else refers
to players by number and finds them here. Once a roster is closed nobody is meant to sit down any
more; whoever seats players has to look at that mark.
-/
namespace Holdem

structure Roster where
  seats : List (Option Player)
  closed : Bool := false
deriving Repr, DecidableEq, Inhabited

namespace Roster

def empty (capacity : Nat) : Roster := { seats := List.replicate capacity none }

def capacity (r : Roster) : Nat := r.seats.length

def close (r : Roster) : Roster := { r with closed := true }

/-- The seated players, from the lowest seat up. -/
def players (r : Roster) : List Player := r.seats.filterMap id

def size (r : Roster) : Nat := r.players.length

def isEmpty (r : Roster) : Bool := r.players.isEmpty

def get? (r : Roster) (id : PlayerId) : Option Player := r.players.find? (·.id = id)

def contains (r : Roster) (id : PlayerId) : Bool := (r.get? id).isSome

def stack? (r : Roster) (id : PlayerId) : Option Chips := (r.get? id).map (·.stack)

/-- Writes the stack of a player, if they are seated. -/
def setStack (r : Roster) (id : PlayerId) (stack : Chips) : Roster :=
  { r with seats := r.seats.map (Option.map fun p => if p.id = id then { p with stack } else p) }

/-- All chips in front of the players. -/
def totalChips (r : Roster) : Chips := (r.players.map (·.stack)).sum

/-- What they are taken to be by whoever adds them up without looking whether they still fit. -/
def countedChips (r : Roster) : Chips := wrapped r.totalChips

/-- The seat that a player gets who asks for `wanted`, or for the first open seat. -/
def openSeat (r : Roster) : Option SeatIndex → Except TableError SeatIndex
  | some seat =>
      match r.seats[seat]? with
      | none => .error (.noSuchSeat seat)
      | some (some _) => .error (.seatTaken seat)
      | some none => .ok seat
  | none =>
      match r.seats.findIdx? Option.isNone with
      | none => .error .full
      | some seat => .ok seat

/-- Seats a player whose chips can still be counted together with those already here. -/
def add (r : Roster) (id : PlayerId) (name : String) (stack : Chips) (wanted : Option SeatIndex) :
    Except TableError (SeatIndex × Roster) :=
  if r.contains id then .error (.alreadySeated id)
  else if maxChips < r.countedChips + stack then .error (.tooManyChips stack)
  else (r.openSeat wanted).map fun seat =>
    (seat, { r with seats := r.seats.set seat (some { id, name, stack, seat }) })

def remove (r : Roster) (id : PlayerId) : Except TableError (Player × Roster) :=
  match r.get? id with
  | none => .error (.notSeated id)
  | some p => .ok (p, { r with seats := r.seats.set p.seat none })

/-- The players with chips, in seat order. They are the ones that get dealt in. -/
def funded (r : Roster) : List PlayerId := (r.players.filter (0 < ·.stack)).map (·.id)

/-- The first player with chips going clockwise from the seat after `seat`. -/
def fundedAfter (r : Roster) (seat : SeatIndex) : Option PlayerId :=
  let start := (seat + 1) % r.seats.length
  let clockwise := (r.seats.drop start ++ r.seats.take start).filterMap id
  (clockwise.find? (0 < ·.stack)).map (·.id)

end Roster
end Holdem
