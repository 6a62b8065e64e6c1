import Holdem.Session
import Holdem.Table.Config
import Holdem.Table.Snapshot
import Holdem.Wire.Play

/-!
# Tables and sessions as trees
-/
namespace Holdem.Wire

def tableError? : Reader TableError := fun t => do
  match ← t.shape? with
  | ("SeatTaken", some seat) => return .seatTaken (← wide? seat)
  | ("NoSuchSeat", some seat) => return .noSuchSeat (← wide? seat)
  | ("AlreadySeated", some player) => return .alreadySeated (← wide? player)
  | ("NotSeated", some player) => return .notSeated (← wide? player)
  | ("NotFound", some table) => return .notFound (← wide? table)
  | ("BuyIn", some held) => do
      let [stack, min, max] ← held.named? ["stack", "min", "max"] | none
      return .buyIn (← chips? stack) (← chips? min) (← chips? max)
  | ("InvalidConfig", some reason) => return .invalidConfig (← text? reason)
  | ("TooManyChips", some stack) => return .tooManyChips (← chips? stack)
  | _ => plain? [("Full", .full)] t

def tableError : TableError → Tree
  | .full => .text "Full"
  | .seatTaken seat => shape "SeatTaken" (natural seat)
  | .noSuchSeat seat => shape "NoSuchSeat" (natural seat)
  | .alreadySeated player => shape "AlreadySeated" (natural player)
  | .notSeated player => shape "NotSeated" (natural player)
  | .notFound table => shape "NotFound" (natural table)
  | .buyIn stack min max =>
      shapeOf "BuyIn" [("stack", natural stack), ("min", natural min), ("max", natural max)]
  | .invalidConfig reason => shape "InvalidConfig" (.text reason)
  | .tooManyChips stack => shape "TooManyChips" (natural stack)

def seatView? : Reader SeatView := fun t => do
  let [player, name, seat, stack, bet, dealtIn, folded, allIn] ←
    t.fields? ["player", "name", "seat", "stack", "bet", "dealt_in", "folded", "all_in"] 0 | none
  return ⟨← wide? player, ← text? name, ← wide? seat, ← chips? stack, ← chips? bet,
    ← bool? dealtIn, ← bool? folded, ← bool? allIn⟩

def seatView (s : SeatView) : Tree :=
  .record [("player", natural s.player), ("name", .text s.name), ("seat", natural s.seat),
    ("stack", natural s.stack), ("bet", natural s.bet), ("dealt_in", .bool s.dealtIn),
    ("folded", .bool s.folded), ("all_in", .bool s.allIn)]

def snapshot? : Reader Snapshot := fun t => do
  let [table, name, hand, phase, board, pots, potTotal, highestBet, dealer, current, seats] ←
    t.fields? ["table_id", "name", "hand", "phase", "board", "pots", "pot_total", "highest_bet",
      "dealer", "current", "seats"] 0 | none
  return ⟨← wide? table, ← text? name, ← optional? wide? hand, ← phase? phase, ← cards? board,
    ← list? pot? pots, ← chips? potTotal, ← chips? highestBet, ← optional? wide? dealer,
    ← optional? wide? current, ← list? seatView? seats⟩

def snapshot (s : Snapshot) : Tree :=
  .record [("table_id", natural s.table), ("name", .text s.name), ("hand", optional natural s.hand),
    ("phase", phase s.phase), ("board", cards s.board), ("pots", many pot s.pots),
    ("pot_total", natural s.potTotal), ("highest_bet", natural s.highestBet),
    ("dealer", optional natural s.dealer), ("current", optional natural s.current),
    ("seats", many seatView s.seats)]

def configFields : List String :=
  ["name", "max_players", "small_blind", "big_blind", "min_buy_in_bb", "max_buy_in_bb",
    "auto_start", "shuffle_seed"]

def tableConfig? : Reader TableConfig := fun t => do
  let [name, maxPlayers, small, big, minBuyIn, maxBuyIn, autoStart, seed] ←
    t.fields? configFields 1 | none
  return ⟨← text? name, ← wide? maxPlayers, ← chips? small, ← chips? big, ← short? minBuyIn,
    ← short? maxBuyIn, ← bool? autoStart, ← optional? wide? seed⟩

def tableConfig (c : TableConfig) : Tree :=
  .record [("name", .text c.name), ("max_players", natural c.maxPlayers),
    ("small_blind", natural c.smallBlind), ("big_blind", natural c.bigBlind),
    ("min_buy_in_bb", natural c.minBuyInBlinds), ("max_buy_in_bb", natural c.maxBuyInBlinds),
    ("auto_start", .bool c.autoStart), ("shuffle_seed", optional natural c.shuffleSeed)]

/-- The default settings with the fields of a record in place of the default ones. -/
def tableConfigOver? : Reader TableConfig
  | t@(.record _) =>
      let base := tableConfig {}
      tableConfig? (.record (configFields.map fun name =>
        (name, (t.field? name).getD (base.field name))))
  | _ => none

def sessionOps : List (String × SessionOp) :=
  [("CreateTable", .createTable), ("JoinTable", .joinTable), ("StartGame", .startGame),
    ("Call", .call), ("Bet", .bet), ("Raise", .raise), ("Check", .check), ("Fold", .fold),
    ("AllIn", .allIn), ("Deal", .deal), ("PocketCards", .pocketCards),
    ("LeaveTable", .leaveTable), ("Say", .say)]

def sessionOp? : Reader SessionOp := plain? sessionOps

def sessionOp : SessionOp → Tree := plain sessionOps

def sessionTags : List (String × SessionTag) :=
  [("Idle", .idle), ("SeatedWaiting", .seatedWaiting), ("Playing", .playing)]

def sessionTag? : Reader SessionTag := plain? sessionTags

def sessionTag : SessionTag → Tree := plain sessionTags

end Holdem.Wire
