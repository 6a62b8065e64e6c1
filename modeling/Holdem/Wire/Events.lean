import Holdem.Event
import Holdem.Wire.Play

/-!
# Events as trees
-/
namespace Holdem.Wire

def blindPost? : Reader BlindPost := fun t => do
  let [player, amount] ← t.fields? ["player", "amount"] 0 | none
  return ⟨← wide? player, ← chips? amount⟩

def blindPost (b : BlindPost) : Tree :=
  .record [("player", natural b.player), ("amount", natural b.amount)]

def shownHand? : Reader ShownHand := fun t => do
  let [held, value] ← t.fields? ["cards", "value"] 0 | none
  return ⟨← cards? held, ← handValue? value⟩

def shownHand (s : ShownHand) : Tree :=
  .record [("cards", cards s.cards), ("value", handValue s.value)]

def chat? : Reader (PlayerId × String) := fun t => do
  let [player, message] ← t.named? ["player", "message"] | none
  return (← wide? player, ← text? message)

def chat (player : PlayerId) (message : String) : Tree :=
  shapeOf "ChatMessage" [("player", natural player), ("message", .text message)]

def gameEvent? : Reader GameEvent := fun t => do
  let (name, some held) ← t.shape? | none
  match name with
  | "HandStarted" => do
      let [hand, dealer, small, big, players] ←
        held.named? ["hand", "dealer", "small_blind", "big_blind", "players"] | none
      return .handStarted (← wide? hand) (← wide? dealer) (← blindPost? small)
        (← blindPost? big) (← list? wide? players)
  | "NextPlayer" => do
      let [player, toCall, min] ← held.named? ["player", "to_call", "min_raise_to"] | none
      return .nextPlayer (← wide? player) (← chips? toCall) (← chips? min)
  | "PotChanged" => do
      let [total, pots] ← held.named? ["total", "pots"] | none
      return .potChanged (← chips? total) (← list? pot? pots)
  | "RoundAdvanced" => do
      let [phase, dealt, board] ← held.named? ["phase", "dealt", "board"] | none
      return .roundAdvanced (← phase? phase) (← cards? dealt) (← cards? board)
  | "PlayerActed" => do
      let [player, action, chips] ← held.named? ["player", "action", "chips"] | none
      return .playerActed (← wide? player) (← action? action) (← chips? chips)
  | "PlayerFolded" => return .playerFolded (← wide? held)
  | "PlayerAllIn" => do
      let [player, chips] ← held.named? ["player", "chips"] | none
      return .playerAllIn (← wide? player) (← chips? chips)
  | "PlayerJoined" => do
      let [player, name, seat, stack] ←
        held.named? ["player", "name", "seat", "stack"] | none
      return .playerJoined (← wide? player) (← text? name) (← wide? seat) (← chips? stack)
  | "PlayerLeft" => do
      let [player, stack] ← held.named? ["player", "stack"] | none
      return .playerLeft (← wide? player) (← chips? stack)
  | "ChatMessage" => do
      let (player, message) ← chat? held
      return .chatMessage player message
  | "HandEnded" => do
      let [hand, payouts, shown, board] ←
        held.named? ["hand", "payouts", "shown", "board"] | none
      return .handEnded (← wide? hand) (← map? chips? payouts) (← map? shownHand? shown)
        (← cards? board)
  | "HandAborted" => do
      let [hand, reason] ← held.named? ["hand", "reason"] | none
      return .handAborted (← wide? hand) (← text? reason)
  | _ => none

def gameEvent : GameEvent → Tree
  | .handStarted hand dealer small big players =>
      shapeOf "HandStarted" [("hand", natural hand), ("dealer", natural dealer),
        ("small_blind", blindPost small), ("big_blind", blindPost big),
        ("players", naturals players)]
  | .nextPlayer player toCall min =>
      shapeOf "NextPlayer" [("player", natural player), ("to_call", natural toCall),
        ("min_raise_to", natural min)]
  | .potChanged total pots =>
      shapeOf "PotChanged" [("total", natural total), ("pots", many pot pots)]
  | .roundAdvanced p dealt board =>
      shapeOf "RoundAdvanced" [("phase", phase p), ("dealt", cards dealt), ("board", cards board)]
  | .playerActed player a chips =>
      shapeOf "PlayerActed" [("player", natural player), ("action", action a),
        ("chips", natural chips)]
  | .playerFolded player => shape "PlayerFolded" (natural player)
  | .playerAllIn player chips =>
      shapeOf "PlayerAllIn" [("player", natural player), ("chips", natural chips)]
  | .playerJoined player name seat stack =>
      shapeOf "PlayerJoined" [("player", natural player), ("name", .text name),
        ("seat", natural seat), ("stack", natural stack)]
  | .playerLeft player stack =>
      shapeOf "PlayerLeft" [("player", natural player), ("stack", natural stack)]
  | .chatMessage player message => chat player message
  | .handEnded hand payouts shown board =>
      shapeOf "HandEnded" [("hand", natural hand), ("payouts", map natural payouts),
        ("shown", map shownHand shown), ("board", cards board)]
  | .handAborted hand reason =>
      shapeOf "HandAborted" [("hand", natural hand), ("reason", .text reason)]

def serverEvent? : Reader ServerEvent := fun t => do
  let (name, some held) ← t.shape? | none
  match name with
  | "TableCreated" => do
      let [table, name] ← held.named? ["table", "name"] | none
      return .tableCreated (← wide? table) (← text? name)
  | "TableRemoved" => return .tableRemoved (← wide? held)
  | "PlayerJoinedTable" => do
      let [player, name, table] ← held.named? ["player", "name", "table"] | none
      return .playerJoinedTable (← wide? player) (← text? name) (← wide? table)
  | "PlayerLeftTable" => do
      let [player, table, stack] ← held.named? ["player", "table", "stack"] | none
      return .playerLeftTable (← wide? player) (← wide? table) (← chips? stack)
  | "GameStarted" => do
      let [table, hand] ← held.named? ["table", "hand"] | none
      return .gameStarted (← wide? table) (← wide? hand)
  | "ChatMessage" => do
      let (player, message) ← chat? held
      return .chatMessage player message
  | _ => none

def serverEvent : ServerEvent → Tree
  | .tableCreated table name =>
      shapeOf "TableCreated" [("table", natural table), ("name", .text name)]
  | .tableRemoved table => shape "TableRemoved" (natural table)
  | .playerJoinedTable player name table =>
      shapeOf "PlayerJoinedTable" [("player", natural player), ("name", .text name),
        ("table", natural table)]
  | .playerLeftTable player table stack =>
      shapeOf "PlayerLeftTable" [("player", natural player), ("table", natural table),
        ("stack", natural stack)]
  | .gameStarted table hand =>
      shapeOf "GameStarted" [("table", natural table), ("hand", natural hand)]
  | .chatMessage player message => chat player message

def notification? : Reader Notification := fun t => do
  match ← t.shape? with
  | ("Game", some event) => return .game (← gameEvent? event)
  | ("Server", some event) => return .server (← serverEvent? event)
  | _ => none

def notification : Notification → Tree
  | .game event => shape "Game" (gameEvent event)
  | .server event => shape "Server" (serverEvent event)

end Holdem.Wire
