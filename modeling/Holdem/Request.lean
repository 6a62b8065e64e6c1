import Holdem.House

/-!
# What players ask for

Every request of a player is first checked against the state of their session. One that is not
permitted has no effect.
-/
namespace Holdem

inductive Request where
  | createTable (config : TableConfig) (buyIn : Chips)
  | joinTable (table : TableId) (buyIn : Chips) (seat : Option SeatIndex)
  | startGame
  | act (action : Action)
  | deal
  | leaveTable
  | say (message : String)
  | pocketCards
deriving Repr, DecidableEq

namespace House

/-- The state of a player's session, provided it permits an operation. -/
def guard (h : House) (player : PlayerId) (op : SessionOp) : Except SessionError SessionState :=
  match h.floor.lobby.stateOf player with
  | .error e => .error e
  | .ok state => if state.permits op then .ok state else .error (.notAllowed op state.tag)

/-- The table a player is seated at, provided an operation is permitted. -/
def seatedAt (h : House) (player : PlayerId) (op : SessionOp) : Except SessionError TableId :=
  match h.guard player op with
  | .error e => .error e
  | .ok state =>
      match state.table? with
      | some table => .ok table
      | none => .error (.notAllowed op state.tag)

/-- Sends a seated player's message to their table. -/
def fromSeat (h : House) (player : PlayerId) (op : SessionOp) (message : Message) :
    House × Reply :=
  match h.seatedAt player op with
  | .error e => (h, .error e)
  | .ok table => h.send table message

def joinTable (h : House) (player : PlayerId) (table : TableId) (buyIn : Chips)
    (seat : Option SeatIndex) : House × Reply :=
  match h.guard player .joinTable with
  | .error e => (h, .error e)
  | .ok _ =>
      if table ∈ h.reachable then
        match h.floor.lobby.nameOf player with
        | .error e => (h, .error e)
        | .ok name => h.send table (.join player name buyIn seat)
      else (h, .error (.table (.notFound table)))

/-- Opens a table and sits down at it. -/
def createAndJoin (h : House) (player : PlayerId) (config : TableConfig) (buyIn : Chips) :
    House × Reply :=
  match h.guard player .createTable with
  | .error e => (h, .error e)
  | .ok _ =>
      match config.checkBuyIn buyIn with
      | .error e => (h, .error (.table e))
      | .ok () =>
          match h.createTable config with
          | .error e => (h, .error (.table e))
          | .ok (table, h) =>
              match h.joinTable player table buyIn none with
              | (h, .ok _) => (h, .ok (.table table))
              | (h, .error e) => ((h.removeIfEmpty table).2, .error e)

/-- Leaves a table, which is removed if nobody is left there. -/
def leaveTable (h : House) (player : PlayerId) : House × Reply :=
  match h.seatedAt player .leaveTable with
  | .error e => (h, .error e)
  | .ok table =>
      match h.send table (.leave player) with
      | (h, .ok chips) => ((h.removeIfEmpty table).2, .ok chips)
      | (h, .error e) => (h, .error e)

/-- Talks to the table while playing and to the house otherwise. -/
def sayFrom (h : House) (player : PlayerId) (message : String) : House × Reply :=
  match h.guard player .say with
  | .error e => (h, .error e)
  | .ok (.playing table) => h.send table (.say player message)
  | .ok _ => (h.say player message, .ok .done)

def request (h : House) (player : PlayerId) : Request → House × Reply
  | .createTable config buyIn => h.createAndJoin player config buyIn
  | .joinTable table buyIn seat => h.joinTable player table buyIn seat
  | .startGame => h.fromSeat player .startGame (.deal player)
  | .act action => h.fromSeat player (.ofAction action) (.act player action)
  | .deal => h.fromSeat player .deal (.deal player)
  | .leaveTable => h.leaveTable player
  | .say message => h.sayFrom player message
  | .pocketCards => h.fromSeat player .pocketCards (.pocket player)

end House
end Holdem
