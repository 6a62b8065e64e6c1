import Holdem.Hand.Deal
import Holdem.Hand.Play
import Holdem.Lobby
import Holdem.Table.Config
import Holdem.Table.Snapshot

/-!
# Hands dealt at a table

A table deals one hand after another to the players in its seats. The button goes to whoever was
to have it next, or past their seat if they are gone or out of chips. As blinds alone can decide a
hand, a table deals on by itself until a hand waits for a player or fewer than two can pay. What
happens is noted first and told later, when the message that caused it has been dealt with.
-/
namespace Holdem

/-- What the tables of a house share. Chance has words for every hand of every table, by which the
decks of tables without a seed are shuffled. A table is held by those who can send it messages,
besides the players who are there. -/
structure Floor where
  lobby : Lobby := {}
  evaluator : Evaluator
  chance : TableId → Nat → Nat → UInt32 := fun _ hand => ChaCha.word hand.toUInt64
  held : TableId → Bool := fun _ => true

/-- A table. The button is the player who is to have it next, with the seat they had. -/
structure Table where
  id : TableId
  config : TableConfig
  roster : Roster
  hand : Option Hand := none
  handsPlayed : Nat := 0
  button : Option (PlayerId × SeatIndex) := none
  snapshot : Snapshot
  outbox : List GameEvent := []
  announcements : List ServerEvent := []
  stopped : Bool := false

namespace Table

/-- An empty table. -/
def create (id : TableId) (config : TableConfig) : Table :=
  { id, config
    roster := .empty config.maxPlayers
    snapshot := .empty id config.name }

/-- Hands in a row that the blinds may decide. Tied hands can return every chip to where it came
from, so that this could go on for ever. -/
def maxUnattendedHands : Nat := 64

/-- The seed of the deck for a hand at a table that was given a seed. -/
def deckSeed (seed hand : Nat) : Nat := (seed + hand) % UInt64.size

/-- The deck that a hand is dealt from. -/
def deck (t : Table) (f : Floor) (hand : Nat) : Deck :=
  match t.config.shuffleSeed with
  | some seed => .seeded (deckSeed seed hand)
  | none => .ofWords (f.chance t.id hand)

def chooseDealer (t : Table) : Option PlayerId :=
  match t.button with
  | none => t.roster.funded.head?
  | some (player, seat) =>
      if 0 < (t.roster.stack? player).getD 0 then some player else t.roster.fundedAfter seat

/-- Clears a finished hand away and marks where the button goes. -/
def endHand (t : Table) : Table :=
  match t.hand with
  | none => t
  | some h =>
      let next := h.nextDealer
      let oldSeat := (t.button.map (·.2)).getD 0
      let seat := ((t.roster.get? next).map (·.seat)).getD oldSeat
      { t with hand := none, button := some (next, seat) }

/-- Notes what the hand has to tell. -/
def drain (t : Table) (h : Hand) : Table :=
  { t with hand := some { h with events := [] }, outbox := t.outbox ++ h.events }

/-- Notes what a step of the hand has to tell and checks that its chips still add up. A hand that
is at fault is aborted. -/
def absorb (t : Table) (f : Floor) (result : Except ActionError Unit) :
    Table × Except ActionError Unit :=
  match t.hand with
  | none => (t, result)
  | some h =>
      let spot : Spot := { hand := h, roster := t.roster, evaluator := f.evaluator }
      let result := result.bind fun _ => spot.checkConservation
      match result with
      | .error (.internal reason) =>
          let spot := spot.abort reason
          ((drain { t with roster := spot.roster } spot.hand).endHand, result)
      | _ => (t.drain h, result)

/-- Takes a seated player's session along to the game, if it is waiting at a table. -/
def follow (table : TableId) (l : Lobby) (player : PlayerId) : Lobby :=
  match l.transition player .startGame (.playing table) with
  | .ok (_, l) => l
  | .error _ => l

/-- Deals one hand. Everybody seated is at the game from then on, at a table that their sessions
hold. -/
def startHand (t : Table) (f : Floor) (fromWaiting : Bool) :
    Table × Floor × Except ActionError Unit :=
  if t.hand.isSome then (t, f, .error .handInProgress)
  else
    match t.chooseDealer with
    | none => (t, f, .error .notEnoughPlayers)
    | some dealer =>
        let number := t.handsPlayed + 1
        match Hand.start number t.roster dealer t.config.blinds (t.deck f number) f.evaluator with
        | (roster, evaluator, .error e) => ({ t with roster }, { f with evaluator }, .error e)
        | (roster, evaluator, .ok hand) =>
            let players := roster.players.map (·.id)
            let f := { f with evaluator, lobby := players.foldl (follow t.id) f.lobby }
            let started := if fromWaiting then [.gameStarted t.id number] else []
            let t :=
              { t with
                roster
                hand := some hand
                handsPlayed := number
                announcements := t.announcements ++ started }
            let (t, result) := t.absorb f (.ok ())
            (t, f, result)

/-- Deals up to so many hands, until one waits for a player or too few players can pay. -/
def dealHands : Nat → Bool → Table → Floor → Table × Floor × Except ActionError Unit
  | 0, _, t, f => (t, f, .ok ())
  | n + 1, fromWaiting, t, f =>
      match t.startHand f fromWaiting with
      | (t, f, .error e) => (t, f, .error e)
      | (t, f, .ok ()) =>
          if !t.hand.any Hand.isOver then (t, f, .ok ())
          else if t.endHand.roster.funded.length < 2 then (t.endHand, f, .ok ())
          else dealHands n false t.endHand f

/-- Moves on to the next hand if the one in play is over. -/
def finishIfOver (t : Table) (f : Floor) : Table × Floor :=
  if !t.hand.any Hand.isOver then (t, f)
  else if t.endHand.roster.funded.length < 2 then (t.endHand, f)
  else
    let (t, f, _) := dealHands maxUnattendedHands false t.endHand f
    (t, f)

end Table
end Holdem
