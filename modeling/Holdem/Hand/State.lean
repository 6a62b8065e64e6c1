import Holdem.Deck
import Holdem.Event
import Holdem.Hand.Round
import Holdem.Table.Roster
import Holdem.TurnOrder

/-!
# A hand in play

A hand holds all that matters while it is played except the stacks, which stay in the roster, and
the valuation of hands, which several hands may share. The three together make a spot, and
whatever can happen during a hand is a function from a spot to the spot after it.
-/
namespace Holdem

/-- A way to value hands. A valuation may depend on how many were made before it. -/
structure Evaluator where
  value : Nat → List Card → HandValue
  calls : Nat := 0

/-- What a player was dealt, and how they stand. -/
structure Holding where
  pocket : List Card := []
  folded : Bool := false
  allIn : Bool := false
deriving Repr, DecidableEq, Inhabited

/-- In `turns` are the players that have not folded, in `dealtIn` those that are still seated. The
seat order from the left of the button is fixed in `order`. -/
structure Hand where
  number : Nat
  dealer : PlayerId
  nextDealer : PlayerId
  firstToAct : PlayerId
  blinds : Blinds
  turns : TurnOrder
  dealtIn : TurnOrder
  order : List PlayerId
  board : List Card := []
  deck : Deck
  holdings : NatMap Holding
  stakes : Stakes := {}
  round : Round
  startingChips : Chips
  departedChips : Chips := 0
  events : List GameEvent := []

namespace Hand

def phase (h : Hand) : Phase := h.round.phase

/-- The collected pots, without the bets of the round in progress. -/
def pots (h : Hand) : List Pot := h.stakes.pots

/-- Every chip that has been put in. -/
def potTotal (h : Hand) : Chips := h.stakes.total + h.round.total

def isOver (h : Hand) : Bool := h.round.phase = .showdown

/-- The player that is waited for. -/
def currentPlayer (h : Hand) : Option PlayerId :=
  if h.isOver || h.round.isClosed then none else h.turns.now.toOption

def isDealtIn (h : Hand) (player : PlayerId) : Bool := h.holdings.contains player

def isFolded (h : Hand) (player : PlayerId) : Bool :=
  ((h.holdings.get? player).map (·.folded)).getD false

def isAllIn (h : Hand) (player : PlayerId) : Bool :=
  ((h.holdings.get? player).map (·.allIn)).getD false

def pocket? (h : Hand) (player : PlayerId) : Option (List Card) :=
  (h.holdings.get? player).map (·.pocket)

/-- Those who have not folded and still have chips behind. -/
def ableToAct (h : Hand) : List PlayerId := h.turns.order.filter fun p => !h.isAllIn p

/-- At most one player can still put chips in, and they have matched the highest bet. -/
def bettingIsOver (h : Hand) : Bool :=
  match h.ableToAct with
  | [] => true
  | [p] => h.round.highestBet ≤ h.round.contribution p
  | _ => false

def emit (h : Hand) (e : GameEvent) : Hand := { h with events := h.events ++ [e] }

def emitPot (h : Hand) : Hand := h.emit (.potChanged h.potTotal h.pots)

def markAllIn (h : Hand) (player : PlayerId) : Hand :=
  { h with holdings := h.holdings.modify player fun held => { held with allIn := true } }

def markFolded (h : Hand) (player : PlayerId) : Hand :=
  { h with holdings := h.holdings.modify player fun held => { held with folded := true } }

/-- Moves the bets of the round into the pots. -/
def collectRound (h : Hand) : Hand :=
  { h with
    stakes := h.round.contributions.entries.foldl (fun s e => s.contribute e.1 e.2) h.stakes
    round := { h.round with contributions := ∅ } }

end Hand

structure Spot where
  hand : Hand
  roster : Roster
  evaluator : Evaluator

/-- The spot that a step leaves behind, and how the step went. -/
abbrev Outcome := Spot × Except ActionError Unit

namespace Spot

def mapHand (s : Spot) (f : Hand → Hand) : Spot := { s with hand := f s.hand }

def done (s : Spot) : Outcome := (s, .ok ())

def fail (s : Spot) (e : ActionError) : Outcome := (s, .error e)

/-- Stops with the fault that a broken turn order amounts to. -/
def failTurn (s : Spot) (e : TurnError) : Outcome := s.fail (.internal e.message)

/-- Chips of all who are still dealt in, of the pots and bets, and of those who left. -/
def chipsInPlay (s : Spot) : Chips :=
  let behind := (s.hand.dealtIn.order.filterMap s.roster.stack?).foldl cappedAdd 0
  cappedAdd (cappedAdd behind s.hand.potTotal) s.hand.departedChips

/-- The chips in play are those that the hand started with. -/
def checkConservation (s : Spot) : Except ActionError Unit :=
  if s.chipsInPlay = s.hand.startingChips then .ok ()
  else .error (.internal s!"{s.chipsInPlay} chips in play, expected {s.hand.startingChips}")

end Spot
end Holdem
