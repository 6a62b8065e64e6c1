import Holdem.Table.Message

/-!
# The house

All tables and all players. A table is listed, so that it can be found, and reachable, so that
messages can be sent to it, from its creation until it is removed. These are two lists, and each is
written by a step of its own: a table is first entered in one and then in the other, and taken off
them in the same order. Only a table without players is removed, and its roster is closed before
anything else. Tables that are gone are kept in memory; whoever still holds on to one finds it
stopped.
-/
namespace Holdem

structure House where
  floor : Floor
  tables : NatMap Table := ∅
  listed : NatSet := ∅
  reachable : NatSet := ∅
  nextTable : TableId := 1
  nextPlayer : PlayerId := 1

/-- A table as it is listed. -/
structure TableSummary where
  id : TableId
  name : String
  playerCount : Nat
  maxPlayers : Nat
  blinds : Blinds
  inHand : Bool
deriving Repr, DecidableEq

namespace House

def mapLobby (h : House) (f : Lobby → Lobby) : House :=
  { h with floor := { h.floor with lobby := f h.floor.lobby } }

/-- Makes a player known. -/
def registerPlayer (h : House) (name : String) : PlayerId × House :=
  let player := h.nextPlayer
  (player, { h.mapLobby (·.register player name) with nextPlayer := player + 1 })

/-- Sets up an empty table under the next number. Nobody knows of it yet. -/
def setUp (h : House) (config : TableConfig) : House :=
  let id := h.nextTable
  { h with
    tables := h.tables.insert id (.create id config)
    nextTable := id + 1 }.mapLobby (·.openAudience id)

def enlist (h : House) (id : TableId) : House := { h with listed := h.listed.insert id }

/-- Makes a table reachable and tells that there is one more. -/
def connect (h : House) (id : TableId) (name : String) : House :=
  { h with reachable := h.reachable.insert id }.mapLobby (·.announce (.tableCreated id name))

/-- Opens an empty table, with nothing in between. -/
def createTable (h : House) (config : TableConfig) : Except TableError (TableId × House) :=
  config.validate.map fun _ =>
    let id := h.nextTable
    (id, ((h.setUp config).enlist id).connect id config.name)

/-- Sends a message to a table and waits for the answer. -/
def send (h : House) (id : TableId) (message : Message) : House × Reply :=
  match h.tables.get? id with
  | none => (h, .error .tableClosed)
  | some t =>
      if t.stopped then (h, .error .tableClosed)
      else
        let (t, floor, reply) := t.handle h.floor message
        ({ h with floor, tables := h.tables.insert id t }, reply)

def summary (reachable : NatSet) (t : Table) : TableSummary :=
  { id := t.id
    name := t.config.name
    playerCount := if t.id ∈ reachable then t.snapshot.seats.length else 0
    maxPlayers := t.config.maxPlayers
    blinds := t.config.blinds
    inHand := t.id ∈ reachable ∧ t.snapshot.hand.isSome }

/-- The listed tables, each as it was last seen. -/
def listTables (h : House) : List TableSummary :=
  (h.listed.members.filterMap h.tables.get?).map (summary h.reachable)

/-- Closes the roster of a table if nobody is seated there. -/
def closeIfEmpty (h : House) (id : TableId) : Option House :=
  match h.tables.get? id with
  | none => none
  | some t =>
      if t.roster.isEmpty then
        some { h with tables := h.tables.insert id { t with roster := t.roster.close } }
      else none

def unlist (h : House) (id : TableId) : House := { h with listed := h.listed.erase id }

def disconnect (h : House) (id : TableId) : House := { h with reachable := h.reachable.erase id }

/-- Takes a table off the lists if nobody is seated there. Meanwhile nobody else gets hold of its
roster. -/
def retire (h : House) (id : TableId) : Option House :=
  if id ∈ h.listed then (h.closeIfEmpty id).map fun h => (h.unlist id).disconnect id else none

/-- Removes a table and stops it if nobody is seated there, with nothing in between. -/
def removeIfEmpty (h : House) (id : TableId) : Bool × House :=
  match h.retire id with
  | none => (false, h)
  | some retired =>
      let stopped :=
        if id ∈ h.reachable then (retired.send id .close).1 else retired
      (true, stopped.mapLobby (·.announce (.tableRemoved id)))

/-- Talks to everybody who is not playing. -/
def say (h : House) (player : PlayerId) (message : String) : House :=
  h.mapLobby (·.announce (.chatMessage player message))

/-- Stops every table. -/
def shutdown (h : House) : House :=
  let h := h.reachable.members.foldl (fun h id => (h.send id .close).1) h
  { h with listed := ∅, reachable := ∅ }

end House
end Holdem
