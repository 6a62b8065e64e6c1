import Holdem.Hand.Action
import Holdem.Hand.Round
import Holdem.TurnOrder
import Holdem.Wire.Cards

/-!
# Actions, turns and bets as trees
-/
namespace Holdem.Wire

def action? : Reader Action := fun t => do
  match ← t.shape? with
  | ("Bet", some amount) => return .bet (← chips? amount)
  | ("Raise", some amount) => return .raise (← chips? amount)
  | _ => plain? [("AllIn", .allIn), ("Call", .call), ("Check", .check), ("Fold", .fold)] t

def action : Action → Tree
  | .allIn => .text "AllIn"
  | .bet amount => shape "Bet" (natural amount)
  | .call => .text "Call"
  | .check => .text "Check"
  | .fold => .text "Fold"
  | .raise amount => shape "Raise" (natural amount)

def phases : List (String × Phase) :=
  [("Waiting", .waiting), ("PreFlop", .preFlop), ("Flop", .flop), ("Turn", .turn),
    ("River", .river), ("Showdown", .showdown)]

def phase? : Reader Phase := plain? phases

def phase : Phase → Tree := plain phases

def pot? : Reader Pot := fun t => do
  let [amount, eligible] ← t.fields? ["amount", "eligible"] 0 | none
  return ⟨← chips? amount, ← set? eligible⟩

def pot (p : Pot) : Tree :=
  .record [("amount", natural p.amount), ("eligible", set p.eligible)]

def blinds? : Reader Blinds := fun t => do
  let [small, big] ← t.fields? ["small", "big"] 0 | none
  return ⟨← chips? small, ← chips? big⟩

def blinds (b : Blinds) : Tree := .record [("small", natural b.small), ("big", natural b.big)]

def player? : Reader Player := fun t => do
  let [id, name, stack, seat] ← t.fields? ["id", "name", "stack", "seat"] 0 | none
  return ⟨← wide? id, ← text? name, ← chips? stack, ← wide? seat⟩

def player (p : Player) : Tree :=
  .record [("id", natural p.id), ("name", .text p.name), ("stack", natural p.stack),
    ("seat", natural p.seat)]

/-- A plan is known by the first of its names that is a field, whatever else is there. -/
def plan? : Reader Plan := fun t =>
  match t.field? "Check", t.field? "Fold", t.field? "Commit" with
  | some player, _, _ => (wide? player).map .check
  | none, some player, _ => (wide? player).map .fold
  | none, none, some held => do
      let [player, action, chips, allIn] ←
        held.named? ["player", "action", "chips", "all_in"] | none
      return .commit (← wide? player) (← action? action) (← chips? chips) (← bool? allIn)
  | none, none, none => none

def plan : Plan → Tree
  | .check player => shape "Check" (natural player)
  | .fold player => shape "Fold" (natural player)
  | .commit player a chips allIn =>
      shapeOf "Commit" [("player", natural player), ("action", action a),
        ("chips", natural chips), ("all_in", .bool allIn)]

def turnOrder? : Reader TurnOrder := fun t => do
  let [order, current] ← t.fields? ["order", "current"] 0 | none
  return { order := ← list? wide? order, current := ← wide? current }

def turnOrder (t : TurnOrder) : Tree :=
  .record [("order", naturals t.order), ("current", natural t.current)]

def turnError? : Reader TurnError := fun t => do
  match ← t.shape? with
  | ("NotFound", some player) => return .notFound (← wide? player)
  | _ => plain? [("Empty", .empty)] t

def turnError : TurnError → Tree
  | .empty => .text "Empty"
  | .notFound player => shape "NotFound" (natural player)

def round (r : Round) : Tree :=
  .record [("phase", phase r.phase), ("highest_bet", natural r.highestBet),
    ("min_raise", natural r.minRaise), ("last_aggressor", optional natural r.lastAggressor),
    ("contributions", map natural r.contributions), ("pending", set r.pending)]

def actionError? : Reader ActionError := fun t => do
  match ← t.shape? with
  | ("WrongPhase", some held) => do
      let [phase] ← held.named? ["phase"] | none
      return .wrongPhase (← phase? phase)
  | ("CannotCheck", some held) => do
      let [toCall] ← held.named? ["to_call"] | none
      return .cannotCheck (← chips? toCall)
  | ("RaiseTooSmall", some held) => do
      let [min] ← held.named? ["min"] | none
      return .raiseTooSmall (← chips? min)
  | ("InsufficientChips", some held) => do
      let [needed, stack] ← held.named? ["needed", "stack"] | none
      return .insufficientChips (← chips? needed) (← chips? stack)
  | ("Internal", some reason) => return .internal (← text? reason)
  | _ =>
      plain? [("OutOfTurn", .outOfTurn), ("NotInHand", .notInHand),
        ("NoHandInProgress", .noHandInProgress), ("HandInProgress", .handInProgress),
        ("NotEnoughPlayers", .notEnoughPlayers), ("NothingToCall", .nothingToCall),
        ("BetAlreadyMade", .betAlreadyMade), ("NoBetToRaise", .noBetToRaise)] t

def actionError : ActionError → Tree
  | .outOfTurn => .text "OutOfTurn"
  | .wrongPhase p => shapeOf "WrongPhase" [("phase", phase p)]
  | .notInHand => .text "NotInHand"
  | .noHandInProgress => .text "NoHandInProgress"
  | .handInProgress => .text "HandInProgress"
  | .notEnoughPlayers => .text "NotEnoughPlayers"
  | .cannotCheck toCall => shapeOf "CannotCheck" [("to_call", natural toCall)]
  | .nothingToCall => .text "NothingToCall"
  | .betAlreadyMade => .text "BetAlreadyMade"
  | .noBetToRaise => .text "NoBetToRaise"
  | .raiseTooSmall min => shapeOf "RaiseTooSmall" [("min", natural min)]
  | .insufficientChips needed stack =>
      shapeOf "InsufficientChips" [("needed", natural needed), ("stack", natural stack)]
  | .internal reason => shape "Internal" (.text reason)

end Holdem.Wire
