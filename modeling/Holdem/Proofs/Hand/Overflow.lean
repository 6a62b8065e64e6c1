import Holdem.Proofs.Hand.Runs
import Holdem.Proofs.Overflow

/-!
# Hands in which chips have to be counted

A hand is played here with sums and differences that fail where a word does not hold the result.
Every function has the shape of the one it stands beside and the same operations in it. Where
chips are only compared, or a result is capped on purpose as the least raise is, nothing can fail,
and such functions are shared.
-/
namespace Holdem

/-- Actions and departures are moves of a hand. Whoever sits down takes no part in it. -/
def Move.inHand : Move → Bool
  | .act .. | .leave _ => true
  | .sitDown .. => false

namespace Round

def commit? (r : Round) (player : PlayerId) (chips : Chips) : Option Round :=
  (r.contributions.addChips? player chips).map fun contributions => { r with contributions }

def total? (r : Round) : Option Chips := r.contributions.totalChips?

def toCall? (r : Round) (player : PlayerId) : Option Chips :=
  diff? r.highestBet (r.contribution player)

def postBlind? (r : Round) (player : PlayerId) (chips : Chips) : Option Round := do
  let r ← r.commit? player chips
  return { r with highestBet := max r.highestBet (r.contribution player) }

def raiseOrCall? (r : Round) (player : PlayerId) (chips : Chips) (able : List PlayerId) :
    Option Round := do
  let r ← r.commit? player chips
  let total := r.contribution player
  if r.highestBet < total then
    let raise ← diff? total r.highestBet
    return { r with
      minRaise := max r.minRaise raise
      highestBet := total
      lastAggressor := some player
      pending := .ofList able }
  else return r

end Round

namespace Hand

def potTotal? (h : Hand) : Option Chips := do sum? (← h.stakes.total?) (← h.round.total?)

def emitPot? (h : Hand) : Option Hand := do
  return h.emit (.potChanged (← h.potTotal?) (← h.stakes.pots?))

def collectRound? (h : Hand) : Option Hand := do
  let stakes ← h.round.contributions.entries.foldlM (fun s e => s.contribute? e.1 e.2) h.stakes
  return { h with stakes, round := { h.round with contributions := ∅ } }

end Hand

namespace Spot

def mapHand? (s : Spot) (f : Hand → Option Hand) : Option Spot :=
  (f s.hand).map fun hand => { s with hand }

/-! ## Moving forward -/

def credit? (r : Roster) (winnings : List (PlayerId × Chips)) : Option Roster :=
  winnings.foldlM
    (fun r e => (sum? ((r.stack? e.1).getD 0) e.2).map fun stack => r.setStack e.1 stack) r

def settle? (s : Spot) (payouts : Payouts) (shown : NatMap ShownHand) : Option Outcome :=
  match payouts.keys.find? fun p => !s.roster.contains p with
  | some p => some (s.fail (.internal s!"{playerText p} won chips but isn't seated"))
  | none => do
      let h := s.hand
      let hand := { h with stakes := {}, round := { h.round with phase := .showdown } }
      return done { s with
        roster := ← credit? s.roster payouts.entries
        hand := hand.emit (.handEnded h.number payouts shown h.board) }

def showdown? (s : Spot) : Option Outcome :=
  match s.showHands s.hand.turns.order with
  | (s, .error e) => some (s.fail e)
  | (s, .ok shown) => do
      let hands : NatMap HandValue := .ofList (shown.entries.map fun e => (e.1, e.2.value))
      match ← s.hand.stakes.distribute? hands s.hand.order with
      | .error e => return s.fail (.internal e.message)
      | .ok payouts => s.settle? payouts shown

def finishUncontested? (s : Spot) : Option Outcome :=
  match s.hand.turns.now with
  | .error e => some (s.failTurn e)
  | .ok winner => do
      let s ← s.mapHand? Hand.collectRound?
      s.settle? (← s.hand.stakes.awardAll? winner) ∅

def prompt? (s : Spot) : Option Outcome :=
  let h := s.hand
  match h.turns.lap.find? h.round.owesAction with
  | none => some (s.fail (.internal "nobody owes an action"))
  | some p =>
      match h.turns.setCurrent p with
      | .error e => some (s.failTurn e)
      | .ok turns => do
          let event := .nextPlayer p (← h.round.toCall? p) h.round.minRaiseTo
          return done (s.mapHand fun h => { h with turns }.emit event)

def advanceThrough? : List (Phase × Nat) → Spot → Option Outcome
  | streets, s =>
      if s.hand.turns.size ≤ 1 then s.finishUncontested?
      else if !s.hand.round.isClosed && !s.hand.bettingIsOver then s.prompt?
      else
        match streets with
        | [] => do (← s.mapHand? Hand.collectRound?).showdown?
        | (phase, count) :: later => do
            match (← s.mapHand? Hand.collectRound?).dealStreet phase count with
            | (s, .ok ()) => advanceThrough? later s
            | (s, .error e) => return s.fail e

def advance? (s : Spot) : Option Outcome := advanceThrough? s.hand.phase.streets s

/-! ## Actions -/

def sizingPlan? (s : Spot) (player : PlayerId) (action : Action) (amount stack : Chips) :
    Option (Except ActionError Plan) :=
  let round := s.hand.round
  if amount < round.minRaiseTo then some (.error (.raiseTooSmall round.minRaiseTo))
  else do
    let needed ← diff? amount (round.contribution player)
    if stack < needed then return .error (.insufficientChips needed stack)
    else return .ok (s.commitPlan player action needed)

/-- What is to call is worked out whatever the action. -/
def planFor? (s : Spot) (player : PlayerId) (stack : Chips) (action : Action) :
    Option (Except ActionError Plan) := do
  let toCall ← s.hand.round.toCall? player
  match action with
  | .check => return if 0 < toCall then .error (.cannotCheck toCall) else .ok (.check player)
  | .call =>
      return if toCall = 0 then .error .nothingToCall
        else .ok (s.commitPlan player .call (min toCall stack))
  | .bet amount =>
      if 0 < s.hand.round.highestBet then return .error .betAlreadyMade
      else s.sizingPlan? player (.bet amount) amount stack
  | .raise amount =>
      if s.hand.round.highestBet = 0 then return .error .noBetToRaise
      else s.sizingPlan? player (.raise amount) amount stack
  | .fold => return .ok (.fold player)
  | .allIn => return .ok (s.commitPlan player .allIn stack)

def validate? (s : Spot) (player : PlayerId) (action : Action) :
    Option (Except ActionError Plan) :=
  if !s.hand.phase.isBetting then some (.error (.wrongPhase s.hand.phase))
  else if !s.hand.isDealtIn player then some (.error .notInHand)
  else if s.hand.currentPlayer ≠ some player then some (.error .outOfTurn)
  else
    match s.roster.stack? player with
    | none => some (.error .notInHand)
    | some stack => s.planFor? player stack action

def passTurn? (s : Spot) : Option Outcome :=
  match s.hand.turns.next with
  | .error e => some (s.failTurn e)
  | .ok (_, turns) => (s.mapHand fun h => { h with turns }).advance?

def applyCheck? (s : Spot) (player : PlayerId) : Option Outcome :=
  passTurn? (s.mapHand fun h =>
    { h with round := h.round.settleAction player }.emit (.playerActed player .check 0))

def commitChips? (h : Hand) (player : PlayerId) (chips : Chips) : Option Hand := do
  let round ← h.round.raiseOrCall? player chips h.ableToAct
  return { h with round := round.settleAction player }

def applyCommit? (s : Spot) (player : PlayerId) (action : Action) (chips : Chips) (allIn : Bool) :
    Option Outcome :=
  match (s.roster.stack? player).filter (chips ≤ ·) with
  | none => some (s.fail (.internal s!"{playerText player} can't cover {chips}"))
  | some stack => do
      let left ← diff? stack chips
      let hand ← commitChips? s.hand player chips
      let hand :=
        if allIn then (hand.markAllIn player).emit (.playerAllIn player chips)
        else hand.emit (.playerActed player action chips)
      passTurn? { s with
        roster := s.roster.setStack player left
        hand := ← hand.emitPot? }

def applyFold? (s : Spot) (player : PlayerId) : Option Outcome :=
  match s.foldOut player with
  | (s, .ok ()) => s.advance?
  | (s, .error e) => some (s.fail e)

def applyPlan? (s : Spot) : Plan → Option Outcome
  | .check player => s.applyCheck? player
  | .commit player action chips allIn => s.applyCommit? player action chips allIn
  | .fold player => s.applyFold? player

def act? (s : Spot) (player : PlayerId) (action : Action) : Option Outcome := do
  match ← s.validate? player action with
  | .error e => return s.fail e
  | .ok plan => s.applyPlan? plan

/-! ## Departures -/

def strikeOff? (s : Spot) (player : PlayerId) (dealtIn : TurnOrder) : Option Spot := do
  let departedChips ← sum? s.hand.departedChips ((s.roster.stack? player).getD 0)
  return s.mapHand fun h =>
    { h with
      nextDealer :=
        if h.nextDealer = player ∧ 1 < h.dealtIn.size then
          (h.dealtIn.nextTo player).toOption.getD h.nextDealer
        else h.nextDealer
      dealtIn
      departedChips }

def foldLeaver? (s : Spot) (player : PlayerId) : Option Outcome :=
  let wasCurrent := s.hand.currentPlayer = some player
  let s := s.mapHand fun h =>
    if h.firstToAct = player then
      { h with firstToAct := (h.turns.nextTo player).toOption.getD h.firstToAct }
    else h
  match s.foldOut player with
  | (s, .error e) => some (s.fail e)
  | (s, .ok ()) =>
      if wasCurrent ∨ s.hand.turns.size ≤ 1 ∨ s.hand.bettingIsOver then s.advance?
      else some s.done

def removePlayer? (s : Spot) (player : PlayerId) : Option Outcome :=
  if s.hand.isOver then some s.done
  else
    match s.hand.dealtIn.remove player with
    | .error _ => some s.done
    | .ok dealtIn => do
        let s ← s.strikeOff? player dealtIn
        if s.hand.turns.contains player then s.foldLeaver? player else return s.done

def refunds? (h : Hand) : Option (NatMap Chips) :=
  (h.stakes.contributions.entries ++ h.round.contributions.entries).foldlM
    (fun m e => m.addChips? e.1 e.2) ∅

def abort? (s : Spot) (reason : String) : Option Spot := do
  let h := s.hand
  let winnings := (← refunds? h).entries.filter fun e => s.roster.contains e.1
  return { s with
    roster := ← credit? s.roster winnings
    hand :=
      { h with
        stakes := {}
        round := { h.round with contributions := ∅, pending := ∅, phase := .showdown }
      }.emit (.handAborted h.number reason) }

/-! ## Runs -/

def chipsInPlay? (s : Spot) : Option Chips := do
  let behind ← total? (s.hand.dealtIn.order.filterMap s.roster.stack?)
  sum? (← sum? behind (← s.hand.potTotal?)) s.hand.departedChips

/-- A move. Sitting down is no affair of the hand. -/
def move? (s : Spot) : Move → Option Outcome
  | .act player action => s.act? player action
  | .leave player => do
      match ← s.removePlayer? player with
      | (s, .ok ()) => return done { s with roster := Table.vacate s.roster player }
      | (s, .error e) => return s.fail e
  | .sitDown player name stack wanted => some (s.move (.sitDown player name stack wanted))

def play? (s : Spot) (moves : List Move) : Option Spot :=
  moves.foldlM (fun s m => (s.move? m).map (·.1)) s

end Spot

namespace Hand

/-! ## The deal -/

def postBlind? (s : Spot) (player : PlayerId) (amount : Chips) : Option (Spot × BlindPost) := do
  let stack := (s.roster.stack? player).getD 0
  let chips := min amount stack
  let left ← diff? stack chips
  let hand := { s.hand with round := ← s.hand.round.postBlind? player chips }
  return ({ s with
      roster := s.roster.setStack player left
      hand := if stack = chips then hand.markAllIn player else hand },
    ⟨player, chips⟩)

def opening? (s : Spot) (pos : Positions) : Option Spot := do
  let (s, small) ← postBlind? s pos.smallBlind s.hand.blinds.small
  let (s, big) ← postBlind? s pos.bigBlind s.hand.blinds.big
  s.mapHand? fun h =>
    let h :=
      { h with
        round := { h.round with pending := .ofList h.ableToAct }
        turns := (h.turns.setCurrent pos.firstToAct).toOption.getD h.turns }
    (h.emit (.handStarted h.number h.dealer small big h.order)).emitPot?

/-- The chips that are dealt in are added up with a check of their own when a hand is set up. -/
def deal? (number : Nat) (roster : Roster) (dealer : PlayerId) (blinds : Blinds) (deck : Deck)
    (evaluator : Evaluator) : Option (Roster × Evaluator × Except ActionError Hand) :=
  match setUp number roster dealer blinds deck with
  | .error e => some (roster, evaluator, .error e)
  | .ok (hand, pos) => do
      match ← (← opening? { hand, roster, evaluator } pos).advance? with
      | (s, .error e) => return (s.roster, s.evaluator, .error e)
      | (s, .ok ()) => return (s.roster, s.evaluator, .ok s.hand)

def start? (number : Nat) (roster : Roster) (dealer : PlayerId) (blinds : Blinds) (deck : Deck)
    (evaluator : Evaluator) : Option (Roster × Evaluator × Except ActionError Hand) :=
  deal? number roster dealer blinds deck.reset evaluator

end Hand
end Holdem
