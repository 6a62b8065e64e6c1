import Holdem.Hand.Play

/-!
# A step and what follows from it

An action changes a hand by itself, and then the hand moves on. So does the departure of a player
who has not folded, unless it leaves the hand waiting for whom it waited before. Here the two are
taken apart.
-/
namespace Holdem

/-! ## Rounds that close -/

/-- What a round makes way for, if that is what is told: the next street, or hands being shown. -/
def GameEvent.closes? : GameEvent → Option Phase
  | .roundAdvanced phase _ _ => some phase
  | .handEnded _ _ shown _ => if shown.entries.isEmpty then none else some .showdown
  | _ => none

namespace Hand

/-- What was told so far of rounds that closed. -/
def closed (h : Hand) : List Phase := h.events.filterMap GameEvent.closes?

@[simp] theorem closed_emit (h : Hand) (e : GameEvent) :
    (h.emit e).closed = h.closed ++ e.closes?.toList := by
  simp only [closed, emit, List.filterMap_append]
  cases he : e.closes? <;> simp [he]

@[simp] theorem closed_emitPot (h : Hand) : h.emitPot.closed = h.closed := by
  simp [emitPot, GameEvent.closes?]

end Hand

namespace Spot

/-! ## A step by itself -/

/-- A step, and another one if it went through. -/
def andThen (o : Outcome) (next : Spot → Outcome) : Outcome :=
  match o with
  | (s, .ok ()) => next s
  | (s, .error e) => s.fail e

/-- Passes the turn on. -/
def turnPassed (s : Spot) : Outcome :=
  match s.hand.turns.next with
  | .error e => s.failTurn e
  | .ok (_, turns) => done (s.mapHand fun h => { h with turns })

theorem passTurn_eq (s : Spot) : s.passTurn = andThen s.turnPassed advance := by
  unfold passTurn turnPassed
  cases s.hand.turns.next <;> rfl

/-- What a plan does by itself, before the hand moves on. -/
def carryOut (s : Spot) : Plan → Outcome
  | .check player =>
      turnPassed (s.mapHand fun h =>
        { h with round := h.round.settleAction player }.emit (.playerActed player .check 0))
  | .commit player action chips allIn =>
      match (s.roster.stack? player).filter (chips ≤ ·) with
      | none => s.fail (.internal s!"{playerText player} can't cover {chips}")
      | some stack =>
          let hand := commitChips s.hand player chips
          let hand :=
            if allIn then (hand.markAllIn player).emit (.playerAllIn player chips)
            else hand.emit (.playerActed player action chips)
          turnPassed { s with
            roster := s.roster.setStack player (stack - chips)
            hand := hand.emitPot }
  | .fold player => s.foldOut player

/-- After any plan the hand moves on. -/
theorem apply_eq (s : Spot) (plan : Plan) : s.apply plan = andThen (s.carryOut plan) advance := by
  cases plan with
  | check player => exact passTurn_eq _
  | commit player action chips allIn =>
      simp only [apply, applyCommit, carryOut]
      cases (s.roster.stack? player).filter (chips ≤ ·) with
      | none => rfl
      | some stack => exact passTurn_eq _
  | fold player => rfl

/-- A step after which the hand moves on if it has to. -/
def goOn : Outcome × Bool → Outcome
  | (o, true) => andThen o advance
  | (o, false) => o

/-- What folding a leaver does by itself, and whether the hand moves on after it. -/
def foldedOut (s : Spot) (player : PlayerId) : Outcome × Bool :=
  let o := foldOut (s.mapHand fun h =>
    if h.firstToAct = player then
      { h with firstToAct := (h.turns.nextTo player).toOption.getD h.firstToAct }
    else h) player
  (o, s.hand.currentPlayer = some player ∨ o.1.hand.turns.size ≤ 1 ∨
    o.1.hand.bettingIsOver = true)

theorem foldLeaver_goesOn (s : Spot) (player : PlayerId) :
    s.foldLeaver player = goOn (s.foldedOut player) := by
  simp only [foldLeaver, foldedOut]
  generalize foldOut _ player = o
  by_cases hgo : s.hand.currentPlayer = some player ∨ o.1.hand.turns.size ≤ 1 ∨
      o.1.hand.bettingIsOver = true
  · obtain ⟨s', e | ⟨⟩⟩ := o
    · simp only [decide_eq_true hgo, goOn, andThen]
    · simp only [if_pos hgo, decide_eq_true hgo, goOn, andThen]
  · obtain ⟨s', e | ⟨⟩⟩ := o
    · simp only [decide_eq_false hgo, goOn, fail]
    · simp only [if_neg hgo, decide_eq_false hgo, goOn, done]

/-- What the departure of a player does by itself, and whether the hand moves on after it. -/
def takeOut (s : Spot) (player : PlayerId) : Outcome × Bool :=
  if s.hand.isOver then (s.done, false)
  else
    match s.hand.dealtIn.remove player with
    | .error _ => (s.done, false)
    | .ok dealtIn =>
        let s := s.strikeOff player dealtIn
        if s.hand.turns.contains player then s.foldedOut player else (s.done, false)

theorem removePlayer_goesOn (s : Spot) (player : PlayerId) :
    s.removePlayer player = goOn (s.takeOut player) := by
  unfold removePlayer takeOut
  split
  · rfl
  · cases s.hand.dealtIn.remove player with
    | error e => rfl
    | ok dealtIn =>
        dsimp only
        split
        · exact foldLeaver_goesOn _ player
        · rfl

end Spot
end Holdem
