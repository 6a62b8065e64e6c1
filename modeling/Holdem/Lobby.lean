import Holdem.Audience
import Holdem.Event
import Holdem.Session

/-!
# The lobby

The lobby knows every player of the house, where they are, and who listens to what. There is one
audience for each table, told of the game there, and one for the house, told of what happens
between games. A player's listener is subscribed where the player is: with the table while they
are playing, with the house otherwise. It moves along with every transition.
-/
namespace Holdem

/-- The number under which the house itself listens. Players are numbered from 1. -/
def house : PlayerId := 0

/-- How many notifications wait for a listener before further ones are lost. -/
def notificationRoom : Nat := 256

/-- A player of the house. Listeners are known by the number of their box. -/
structure SessionEntry where
  name : String
  state : SessionState := .idle
  listener : Option Nat := none
deriving Repr, DecidableEq

structure Lobby where
  sessions : NatMap SessionEntry := ∅
  mail : Mailroom Notification := {}
  houseAudience : Audience Nat := { name := "server" }
  tableAudiences : NatMap (Audience Nat) := ∅

namespace Lobby

/-- Puts a notification into a listener's box. -/
def deliver (note : Notification) : PlayerId → Nat → Mailroom Notification →
    Reaction Nat (Mailroom Notification) :=
  fun _ box mail =>
    let (receipt, mail) := mail.put box note
    { receipt, world := mail }

/-- Tells the house. -/
def announce (l : Lobby) (event : ServerEvent) : Lobby :=
  let (_, houseAudience, mail) := l.houseAudience.publish (deliver (.server event)) l.mail
  { l with houseAudience, mail }

/-- Tells the audience of a table. -/
def tell (l : Lobby) (table : TableId) (event : GameEvent) : Lobby :=
  match l.tableAudiences.get? table with
  | none => l
  | some audience =>
      let (_, audience, mail) := audience.publish (deliver (.game event)) l.mail
      { l with tableAudiences := l.tableAudiences.insert table audience, mail }

/-- Provides an audience for a new table. -/
def openAudience (l : Lobby) (table : TableId) : Lobby :=
  { l with tableAudiences := l.tableAudiences.insert table { name := tableText table } }

/-- Changes the audience that belongs to a state. -/
def mapScope (l : Lobby) (state : SessionState) (f : Audience Nat → Audience Nat) : Lobby :=
  match state with
  | .playing table => { l with tableAudiences := l.tableAudiences.modify table f }
  | .idle | .seatedWaiting _ => { l with houseAudience := f l.houseAudience }

def register (l : Lobby) (player : PlayerId) (name : String) : Lobby :=
  { l with sessions := l.sessions.insert player { name } }

def entry (l : Lobby) (player : PlayerId) : Except SessionError SessionEntry :=
  match l.sessions.get? player with
  | some e => .ok e
  | none => .error (.unknownPlayer player)

def nameOf (l : Lobby) (player : PlayerId) : Except SessionError String :=
  (l.entry player).map (·.name)

def stateOf (l : Lobby) (player : PlayerId) : Except SessionError SessionState :=
  (l.entry player).map (·.state)

/-- Whether the session of somebody is at a table. -/
def holds (l : Lobby) (table : TableId) : Bool :=
  l.sessions.values.any fun e => e.state.table? = some table

/-- Moves a listener from the audience of one state to that of another. -/
def moveListener (l : Lobby) (player : PlayerId) (box : Nat) (before after : SessionState) :
    Lobby :=
  (l.mapScope before (·.unsubscribe player)).mapScope after (·.subscribe player box)

/-- Moves a player to a state if the one they are in permits the operation. Answers the state
they were in. -/
def transition (l : Lobby) (player : PlayerId) (op : SessionOp) (next : SessionState) :
    Except SessionError (SessionState × Lobby) :=
  match l.entry player with
  | .error e => .error e
  | .ok e =>
      if e.state.permits op then
        let l := { l with sessions := l.sessions.insert player { e with state := next } }
        .ok (e.state, e.listener.elim l fun box => l.moveListener player box e.state next)
      else .error (.notAllowed op e.state.tag)

/-- Opens a box in which a player listens from now on, in place of any other. -/
def listen (l : Lobby) (player : PlayerId) (room : Nat) : Except SessionError (Nat × Lobby) :=
  match l.entry player with
  | .error e => .error e
  | .ok e =>
      let (box, mail) := l.mail.openBox (some room)
      let sessions := l.sessions.insert player { e with listener := some box }
      .ok (box, { l with mail, sessions }.mapScope e.state (·.subscribe player box))

/-- Opens a box in which the house listens to what happens between games. -/
def listenAsHouse (l : Lobby) : Nat × Lobby :=
  let (box, mail) := l.mail.openBox none
  (box, { l with mail, houseAudience := l.houseAudience.subscribe house box })

end Lobby
end Holdem
