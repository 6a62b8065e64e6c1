import Holdem.Hand.Action
import Holdem.Table.Error

/-!
# Sessions

Every player of the house is in one of three states: at no table, waiting at one, or playing at
one. Which operations a state permits is laid down here and nowhere else.
-/
namespace Holdem

/-- All that players can ask for. -/
inductive SessionOp where
  | createTable
  | joinTable
  | startGame
  | call
  | bet
  | raise
  | check
  | fold
  | allIn
  | deal
  | pocketCards
  | leaveTable
  | say
deriving Repr, DecidableEq, Inhabited

namespace SessionOp

def ofAction : Action → SessionOp
  | .allIn => allIn
  | .bet _ => bet
  | .call => call
  | .check => check
  | .fold => fold
  | .raise _ => raise

def text : SessionOp → String
  | createTable => "create a table"
  | joinTable => "join a table"
  | startGame => "start the game"
  | call => "call"
  | bet => "bet"
  | raise => "raise"
  | check => "check"
  | fold => "fold"
  | allIn => "go all-in"
  | deal => "deal"
  | pocketCards => "look at your cards"
  | leaveTable => "leave the table"
  | say => "chat"

end SessionOp

inductive SessionTag where
  | idle
  | seatedWaiting
  | playing
deriving Repr, DecidableEq, Inhabited

namespace SessionTag

/-- The permission matrix. -/
def permits (t : SessionTag) : SessionOp → Bool
  | .createTable | .joinTable => t = idle
  | .startGame => t = seatedWaiting
  | .call | .bet | .raise | .check | .fold | .allIn | .deal | .pocketCards => t = playing
  | .leaveTable => t ≠ idle
  | .say => true

def text : SessionTag → String
  | idle => "not at a table"
  | seatedWaiting => "waiting at a table"
  | playing => "playing"

end SessionTag

/-- Where a player is. -/
inductive SessionState where
  | idle
  | seatedWaiting (table : TableId)
  | playing (table : TableId)
deriving Repr, DecidableEq, Inhabited

namespace SessionState

def tag : SessionState → SessionTag
  | idle => .idle
  | seatedWaiting _ => .seatedWaiting
  | playing _ => .playing

def table? : SessionState → Option TableId
  | idle => none
  | seatedWaiting table | playing table => some table

def permits (s : SessionState) (op : SessionOp) : Bool := s.tag.permits op

/-- A seated player's table, as it shows in a diagnostic. -/
def tableDiagnostic (table : TableId) : String :=
  s!"(GameMediator \x7b table_id: TableId({table}), .. \x7d)"

/-- A state as it shows in a diagnostic. -/
def diagnostic : SessionState → String
  | idle => "Idle"
  | seatedWaiting table => "SeatedWaiting" ++ tableDiagnostic table
  | playing table => "Playing" ++ tableDiagnostic table

end SessionState

/-- A player's handle as it shows in a diagnostic. -/
def sessionDiagnostic (player : PlayerId) : String :=
  s!"Session \x7b player: PlayerId({player}), .. \x7d"

inductive SessionError where
  | notAllowed (op : SessionOp) (state : SessionTag)
  | unknownPlayer (player : PlayerId)
  | tableClosed
  | action (e : ActionError)
  | table (e : TableError)
deriving Repr, DecidableEq

def SessionError.message : SessionError → String
  | notAllowed op state => "can't " ++ op.text ++ " while " ++ state.text
  | unknownPlayer player => playerText player ++ " has no session"
  | tableClosed => "table is closed"
  | action e => e.message
  | table e => e.message

end Holdem
