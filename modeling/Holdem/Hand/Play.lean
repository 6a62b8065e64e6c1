import Holdem.Hand.Progress

/-!
# Playing a hand

An action is first checked, which changes nothing, and the plan it yields is then carried out.
Leaving the table takes a player out of the hand. A hand in which something does not add up is
aborted, and the chips put in go back to where they came from.
-/
namespace Holdem

namespace Spot

/-- The plan of putting in chips. -/
def commitPlan (s : Spot) (player : PlayerId) (action : Action) (chips : Chips) : Plan :=
  .commit player action chips (s.roster.stack? player = some chips)

/-- A bet or a raise to `amount`, for a player with a stack. -/
def sizingPlan (s : Spot) (player : PlayerId) (action : Action) (amount stack : Chips) :
    Except ActionError Plan :=
  let round := s.hand.round
  let needed := amount - round.contribution player
  if amount < round.minRaiseTo then .error (.raiseTooSmall round.minRaiseTo)
  else if stack < needed then .error (.insufficientChips needed stack)
  else .ok (s.commitPlan player action needed)

/-- What an action of the player on turn comes to. -/
def planFor (s : Spot) (player : PlayerId) (stack : Chips) : Action → Except ActionError Plan
  | .check =>
      let toCall := s.hand.round.toCall player
      if 0 < toCall then .error (.cannotCheck toCall) else .ok (.check player)
  | .call =>
      let toCall := s.hand.round.toCall player
      if toCall = 0 then .error .nothingToCall
      else .ok (s.commitPlan player .call (min toCall stack))
  | .bet amount =>
      if 0 < s.hand.round.highestBet then .error .betAlreadyMade
      else s.sizingPlan player (.bet amount) amount stack
  | .raise amount =>
      if s.hand.round.highestBet = 0 then .error .noBetToRaise
      else s.sizingPlan player (.raise amount) amount stack
  | .fold => .ok (.fold player)
  | .allIn => .ok (s.commitPlan player .allIn stack)

/-- Whether `player` may take `action` now, and what it comes to. -/
def validate (s : Spot) (player : PlayerId) (action : Action) : Except ActionError Plan :=
  if !s.hand.phase.isBetting then .error (.wrongPhase s.hand.phase)
  else if !s.hand.isDealtIn player then .error .notInHand
  else if s.hand.currentPlayer ≠ some player then .error .outOfTurn
  else
    match s.roster.stack? player with
    | none => .error .notInHand
    | some stack => s.planFor player stack action

/-- Passes the turn on and lets the hand move forward. -/
def passTurn (s : Spot) : Outcome :=
  match s.hand.turns.next with
  | .error e => s.failTurn e
  | .ok (_, turns) => (s.mapHand fun h => { h with turns }).advance

/-- Takes a player out of the turns and of every pot. -/
def foldOut (s : Spot) (player : PlayerId) : Outcome :=
  if s.hand.isDealtIn player then
    let s := s.mapHand fun h =>
      { h.markFolded player with
        stakes := h.stakes.fold player
        round := h.round.settleAction player }
    match s.hand.turns.remove player with
    | .error e => s.failTurn e
    | .ok turns => done (s.mapHand fun h => { h with turns }.emit (.playerFolded player))
  else s.fail .notInHand

def applyCheck (s : Spot) (player : PlayerId) : Outcome :=
  passTurn (s.mapHand fun h =>
    { h with round := h.round.settleAction player }.emit (.playerActed player .check 0))

/-- Moves chips from a stack to the player's bet. -/
def commitChips (h : Hand) (player : PlayerId) (chips : Chips) : Hand :=
  { h with round := (h.round.raiseOrCall player chips h.ableToAct).settleAction player }

def applyCommit (s : Spot) (player : PlayerId) (action : Action) (chips : Chips) (allIn : Bool) :
    Outcome :=
  match (s.roster.stack? player).filter (chips ≤ ·) with
  | none => s.fail (.internal s!"{playerText player} can't cover {chips}")
  | some stack =>
      let hand := commitChips s.hand player chips
      let hand :=
        if allIn then (hand.markAllIn player).emit (.playerAllIn player chips)
        else hand.emit (.playerActed player action chips)
      passTurn { s with
        roster := s.roster.setStack player (stack - chips)
        hand := hand.emitPot }

def applyFold (s : Spot) (player : PlayerId) : Outcome :=
  match s.foldOut player with
  | (s, .ok ()) => s.advance
  | (s, .error e) => s.fail e

/-- Carries out a plan, whether or not it was made for this very spot. -/
def apply (s : Spot) : Plan → Outcome
  | .check player => s.applyCheck player
  | .commit player action chips allIn => s.applyCommit player action chips allIn
  | .fold player => s.applyFold player

/-- Checks an action and carries it out. -/
def act (s : Spot) (player : PlayerId) (action : Action) : Outcome :=
  match s.validate player action with
  | .error e => s.fail e
  | .ok plan => s.apply plan

/-- Strikes a player off those dealt in. If they were to have the button next, it passes on. -/
def strikeOff (s : Spot) (player : PlayerId) (dealtIn : TurnOrder) : Spot :=
  s.mapHand fun h =>
    { h with
      nextDealer :=
        if h.nextDealer = player ∧ 1 < h.dealtIn.size then
          (h.dealtIn.nextTo player).toOption.getD h.nextDealer
        else h.nextDealer
      dealtIn
      departedChips := h.departedChips + (s.roster.stack? player).getD 0 }

/-- Whoever is struck off was dealt in, so there is a player for the button to pass on to. -/
theorem nextTo_strikeOff {s : Spot} {player : PlayerId} {dealtIn : TurnOrder}
    (hremove : s.hand.dealtIn.remove player = .ok dealtIn) (hnext : s.hand.nextDealer = player)
    (hmore : 1 < s.hand.dealtIn.size) :
    s.hand.dealtIn.nextTo player = .ok (s.strikeOff player dealtIn).hand.nextDealer := by
  obtain ⟨q, -, hq⟩ := TurnOrder.nextTo_of_mem (TurnOrder.mem_of_remove hremove)
  simp only [strikeOff, mapHand, hnext, hmore, and_self, if_true, hq]
  rfl

/-- Folds a player who is leaving, and moves on if the hand was waiting for them or nobody is
left to wait for. -/
def foldLeaver (s : Spot) (player : PlayerId) : Outcome :=
  let wasCurrent := s.hand.currentPlayer = some player
  let s := s.mapHand fun h =>
    if h.firstToAct = player then
      { h with firstToAct := (h.turns.nextTo player).toOption.getD h.firstToAct }
    else h
  match s.foldOut player with
  | (s, .error e) => s.fail e
  | (s, .ok ()) =>
      if wasCurrent ∨ s.hand.turns.size ≤ 1 ∨ s.hand.bettingIsOver then s.advance else s.done

/-- Whoever is folded has a turn, so there is a player after them to act first. -/
theorem nextTo_foldLeaver {s : Spot} {player : PlayerId} (hturn : s.hand.turns.contains player = true) :
    ∃ q, s.hand.turns.nextTo player = .ok q := by
  obtain ⟨q, -, hq⟩ := TurnOrder.nextTo_of_mem (List.contains_iff_mem.mp hturn)
  exact ⟨q, hq⟩

/-- Takes a player out of the hand who is about to leave the table with their stack. -/
def removePlayer (s : Spot) (player : PlayerId) : Outcome :=
  if s.hand.isOver then s.done
  else
    match s.hand.dealtIn.remove player with
    | .error _ => s.done
    | .ok dealtIn =>
        let s := s.strikeOff player dealtIn
        if s.hand.turns.contains player then s.foldLeaver player else s.done

/-- What everybody has put in, player by player. -/
def refunds (h : Hand) : NatMap Chips :=
  (h.stakes.contributions.entries ++ h.round.contributions.entries).foldl
    (fun m e => m.addChips e.1 e.2) ∅

/-- Gives every chip back to whoever put it in, if they are still seated, and ends the hand. -/
def abort (s : Spot) (reason : String) : Spot :=
  let h := s.hand
  let winnings := (refunds h).entries.filter fun e => s.roster.contains e.1
  { s with
    roster := credit s.roster winnings
    hand :=
      { h with
        stakes := {}
        round := { h.round with contributions := ∅, pending := ∅, phase := .showdown }
      }.emit (.handAborted h.number reason) }

end Spot
end Holdem
