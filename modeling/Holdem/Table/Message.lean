import Holdem.Table.Dealing

/-!
# Messages to a table

A table deals with one message at a time. What happens on the way is collected in its outbox and
told only when the message has been dealt with. A message that is refused tells nothing, and one
that cannot change the table leaves the published view of it alone.
-/
namespace Holdem

inductive Message where
  | act (player : PlayerId) (action : Action)
  | deal (player : PlayerId)
  | join (player : PlayerId) (name : String) (stack : Chips) (seat : Option SeatIndex)
  | leave (player : PlayerId)
  | say (player : PlayerId) (message : String)
  | pocket (player : PlayerId)
  | close
deriving Repr, DecidableEq

inductive Answer where
  | done
  | seat (seat : SeatIndex)
  | chips (chips : Chips)
  | cards (cards : List Card)
  | table (table : TableId)
deriving Repr, DecidableEq

abbrev Reply := Except SessionError Answer

/-- A result of the game as the answer to a message. -/
def replyTo : Except ActionError Unit → Reply
  | .ok _ => .ok .done
  | .error e => .error (.action e)

/-- What a message leads to before anybody is told, and whether the view has to be renewed. -/
structure Response where
  table : Table
  floor : Floor
  reply : Reply
  renew : Bool

namespace Table

/-- Nothing changes, and nothing is told. -/
def refuse (t : Table) (f : Floor) (e : SessionError) : Response :=
  { table := t, floor := f, reply := .error e, renew := false }

/-- A player acts on their turn. -/
def respondAct (t : Table) (f : Floor) (player : PlayerId) (action : Action) : Response :=
  match t.hand with
  | none => t.refuse f (.action .noHandInProgress)
  | some hand =>
      let (spot, result) :=
        Spot.act { hand, roster := t.roster, evaluator := f.evaluator } player action
      let f := { f with evaluator := spot.evaluator }
      let (t, result) := absorb { t with hand := some spot.hand, roster := spot.roster } f result
      let (t, f) := if result.isOk then t.finishIfOver f else (t, f)
      { table := t, floor := f, reply := replyTo result, renew := true }

/-- A seated player asks for a hand. -/
def respondDeal (t : Table) (f : Floor) (player : PlayerId) : Response :=
  if !t.roster.contains player then t.refuse f (.table (.notSeated player))
  else if t.hand.isSome then t.refuse f (.action .handInProgress)
  else
    let (t, f, result) := dealHands maxUnattendedHands true t f
    { table := t, floor := f, reply := replyTo result, renew := true }

/-- Whether anybody still holds a table. If nobody does it can not be handed to anybody else. -/
def isHeld (t : Table) (f : Floor) : Bool := f.held t.id || f.lobby.holds t.id

/-- Takes a seat for a player who may sit down here. -/
def takeSeat (t : Table) (f : Floor) (player : PlayerId) (name : String) (stack : Chips)
    (wanted : Option SeatIndex) : Except SessionError (SeatIndex × Roster) :=
  match t.config.checkBuyIn stack with
  | .error e => .error (.table e)
  | .ok () =>
      if !t.isHeld f then .error .tableClosed
      else if t.roster.closed then .error (.table (.notFound t.id))
      else (t.roster.add player name stack wanted).mapError .table

/-- Gives a seat up again that was just taken (`vacate_of_takeSeat`). -/
def vacate (r : Roster) (player : PlayerId) : Roster :=
  match r.remove player with
  | .ok (_, r) => r
  | .error _ => r

/-- Notes that a player has sat down, and starts a hand if the table is one that does so. -/
def welcome (t : Table) (f : Floor) (player : PlayerId) (name : String) (stack : Chips)
    (seat : SeatIndex) : Table × Floor :=
  let t :=
    { t with
      outbox := t.outbox ++ [.playerJoined player name seat stack]
      announcements := t.announcements ++ [.playerJoinedTable player name t.id] }
  if t.hand.isNone ∧ t.config.autoStart ∧ 2 ≤ t.roster.funded.length then
    let (t, f, _) := dealHands maxUnattendedHands true t f
    (t, f)
  else (t, f)

/-- A player sits down, to be dealt in from the next hand on. If their session does not allow it,
they have to get up again. -/
def respondJoin (t : Table) (f : Floor) (player : PlayerId) (name : String) (stack : Chips)
    (wanted : Option SeatIndex) : Response :=
  match t.takeSeat f player name stack wanted with
  | .error e => t.refuse f e
  | .ok (seat, roster) =>
      match f.lobby.transition player .joinTable (.seatedWaiting t.id) with
      | .error e => refuse { t with roster := vacate roster player } f e
      | .ok (_, lobby) =>
          let (t, f) := welcome { t with roster } { f with lobby } player name stack seat
          { table := t, floor := f, reply := .ok (.seat seat), renew := true }

/-- Takes a player out of the hand in play. -/
def takeOut (t : Table) (f : Floor) (player : PlayerId) :
    Table × Floor × Except ActionError Unit :=
  match t.hand with
  | none => (t, f, .ok ())
  | some hand =>
      let (spot, result) :=
        Spot.removePlayer { hand, roster := t.roster, evaluator := f.evaluator } player
      ({ t with hand := some spot.hand, roster := spot.roster },
        { f with evaluator := spot.evaluator }, result)

/-- Lets a player's session go, whatever state it is in. -/
def dismiss (l : Lobby) (player : PlayerId) : Lobby :=
  match l.transition player .leaveTable .idle with
  | .ok (_, l) => l
  | .error _ => l

/-- A player stands up, folding first if they have to, and takes their stack away. -/
def respondLeave (t : Table) (f : Floor) (player : PlayerId) : Response :=
  if !t.roster.contains player then t.refuse f (.table (.notSeated player))
  else
    let (t, f, folded) := t.takeOut f player
    match t.roster.remove player with
    | .error e => t.refuse f (.table e)
    | .ok (departed, roster) =>
        let (t, _) := absorb { t with roster } f folded
        let t :=
          { t with
            outbox := t.outbox ++ [GameEvent.playerLeft player departed.stack]
            announcements :=
              t.announcements ++ [ServerEvent.playerLeftTable player t.id departed.stack] }
        let (t, f) := t.finishIfOver { f with lobby := dismiss f.lobby player }
        { table := t, floor := f, reply := .ok (.chips departed.stack), renew := true }

/-- A seated player talks to everybody at the table. -/
def respondSay (t : Table) (f : Floor) (player : PlayerId) (message : String) : Response :=
  if !t.roster.contains player then t.refuse f (.table (.notSeated player))
  else
    { table := { t with outbox := t.outbox ++ [.chatMessage player message] }
      floor := f
      reply := .ok .done
      renew := false }

/-- A player looks at their own cards. -/
def respondPocket (t : Table) (f : Floor) (player : PlayerId) : Response :=
  match t.hand.bind (·.pocket? player) with
  | some cards => { table := t, floor := f, reply := .ok (.cards cards), renew := false }
  | none => t.refuse f (.action .notInHand)

def respond (t : Table) (f : Floor) : Message → Response
  | .act player action => t.respondAct f player action
  | .deal player => t.respondDeal f player
  | .join player name stack seat => t.respondJoin f player name stack seat
  | .leave player => t.respondLeave f player
  | .say player message => t.respondSay f player message
  | .pocket player => t.respondPocket f player
  | .close =>
      { table := { t with stopped := true }, floor := f, reply := .ok .done, renew := false }

/-- Publishes the view of the table as it is now. -/
def renewView (t : Table) : Table :=
  { t with snapshot := publicView t.id t.config.name t.roster t.hand }

/-- Tells what has happened: the table of the game, then the house. -/
def tellAll (t : Table) (f : Floor) : Table × Floor :=
  let lobby := t.outbox.foldl (fun l e => l.tell t.id e) f.lobby
  let lobby := t.announcements.foldl Lobby.announce lobby
  ({ t with outbox := [], announcements := [] }, { f with lobby })

/-- Deals with a message. -/
def handle (t : Table) (f : Floor) (m : Message) : Table × Floor × Reply :=
  let r := t.respond f m
  let (t, f) := (if r.renew then r.table.renewView else r.table).tellAll r.floor
  (t, f, r.reply)

end Table
end Holdem
