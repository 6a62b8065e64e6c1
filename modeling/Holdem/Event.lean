import Holdem.Hand.Action
import Holdem.Pot

/-!
# What happens at a table

The events that everybody at a table is told, in the order in which they happen, and the events
that are told to everybody who is not playing.
-/
namespace Holdem

/-- A forced bet. -/
structure BlindPost where
  player : PlayerId
  amount : Chips
deriving Repr, DecidableEq

/-- The cards that a player turned over, and what they are worth with the board. -/
structure ShownHand where
  cards : List Card
  value : HandValue
deriving Repr, DecidableEq

inductive GameEvent where
  | handStarted (hand : Nat) (dealer : PlayerId) (smallBlind bigBlind : BlindPost)
      (players : List PlayerId)
  | nextPlayer (player : PlayerId) (toCall minRaiseTo : Chips)
  | potChanged (total : Chips) (pots : List Pot)
  | roundAdvanced (phase : Phase) (dealt board : List Card)
  | playerActed (player : PlayerId) (action : Action) (chips : Chips)
  | playerFolded (player : PlayerId)
  | playerAllIn (player : PlayerId) (chips : Chips)
  | playerJoined (player : PlayerId) (name : String) (seat : SeatIndex) (stack : Chips)
  | playerLeft (player : PlayerId) (stack : Chips)
  | chatMessage (player : PlayerId) (message : String)
  | handEnded (hand : Nat) (payouts : Payouts) (shown : NatMap ShownHand) (board : List Card)
  | handAborted (hand : Nat) (reason : String)
deriving Repr, DecidableEq

/-- A line that tells of a chat message, at a table or in the whole house. -/
def chatText (player : PlayerId) (message : String) : String :=
  playerText player ++ ": " ++ message

def GameEvent.text : GameEvent → String
  | handStarted hand dealer small big players =>
      s!"hand {hand} started with {players.length} players, {playerText dealer} has the button, " ++
      s!"{playerText small.player} posts {small.amount} and " ++
      s!"{playerText big.player} posts {big.amount}"
  | nextPlayer player toCall _ => s!"{playerText player} to act ({toCall} to call)"
  | potChanged total pots => s!"pot is {total} across {max pots.length 1} pot(s)"
  | roundAdvanced phase _ board =>
      phase.text ++ ": " ++ String.intercalate " " (board.map Card.shortText)
  | playerActed player action _ => playerText player ++ " " ++ action.text
  | playerFolded player => playerText player ++ " folds"
  | playerAllIn player chips => s!"{playerText player} is all-in for {chips}"
  | playerJoined player name seat stack =>
      name ++ s!" ({playerText player}) sits in seat {seat} with {stack}"
  | playerLeft player stack => s!"{playerText player} left with {stack}"
  | chatMessage player message => chatText player message
  | handEnded hand payouts _ _ =>
      let wins := payouts.entries.map fun (player, chips) =>
        s!"{playerText player} wins {chips}"
      s!"hand {hand} ended: " ++ String.intercalate ", " wins
  | handAborted hand reason => s!"hand {hand} aborted: " ++ reason

inductive ServerEvent where
  | tableCreated (table : TableId) (name : String)
  | tableRemoved (table : TableId)
  | playerJoinedTable (player : PlayerId) (name : String) (table : TableId)
  | playerLeftTable (player : PlayerId) (table : TableId) (stack : Chips)
  | gameStarted (table : TableId) (hand : Nat)
  | chatMessage (player : PlayerId) (message : String)
deriving Repr, DecidableEq

def ServerEvent.text : ServerEvent → String
  | tableCreated table name => tableText table ++ " '" ++ name ++ "' created"
  | tableRemoved table => tableText table ++ " removed"
  | playerJoinedTable player name table =>
      name ++ s!" ({playerText player}) joined {tableText table}"
  | playerLeftTable player table stack =>
      s!"{playerText player} left {tableText table} with {stack}"
  | gameStarted table hand => s!"{tableText table} started hand {hand}"
  | chatMessage player message => chatText player message

/-- What a listening player receives. -/
inductive Notification where
  | game (event : GameEvent)
  | server (event : ServerEvent)
deriving Repr, DecidableEq

def Notification.text : Notification → String
  | game event => event.text
  | server event => event.text

end Holdem
