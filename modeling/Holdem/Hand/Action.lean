import Holdem.Hand.Phase
import Holdem.Player

/-!
# Actions

What a player can do on their turn, why it may be refused, and the plan that an accepted action
turns into. The amounts of bets and raises are what the player will have put in during the round.
-/
namespace Holdem

inductive Action where
  | allIn
  | bet (amount : Chips)
  | call
  | check
  | fold
  | raise (amount : Chips)
deriving Repr, DecidableEq

def Action.text : Action → String
  | allIn => "goes all-in"
  | bet amount => s!"bets {amount}"
  | call => "calls"
  | check => "checks"
  | fold => "folds"
  | raise amount => s!"raises to {amount}"

/-- All but `internal` are the player's mistake. -/
inductive ActionError where
  | outOfTurn
  | wrongPhase (phase : Phase)
  | notInHand
  | noHandInProgress
  | handInProgress
  | notEnoughPlayers
  | cannotCheck (toCall : Chips)
  | nothingToCall
  | betAlreadyMade
  | noBetToRaise
  | raiseTooSmall (min : Chips)
  | insufficientChips (needed stack : Chips)
  | internal (reason : String)
deriving Repr, DecidableEq

def ActionError.message : ActionError → String
  | outOfTurn => "not your turn"
  | wrongPhase phase => "can't do that during " ++ phase.text
  | notInHand => "not dealt into this hand"
  | noHandInProgress => "no hand in progress"
  | handInProgress => "hand already in progress"
  | notEnoughPlayers => "need 2+ players with chips"
  | cannotCheck toCall => s!"can't check, {toCall} to call"
  | nothingToCall => "nothing to call"
  | betAlreadyMade => "there's already a bet, raise instead"
  | noBetToRaise => "no bet to raise, bet instead"
  | raiseTooSmall min => s!"need to raise to at least {min}"
  | insufficientChips needed stack => s!"need {needed} but only have {stack}"
  | internal reason => "invalid game state: " ++ reason

/-- An accepted action, worked out in chips. -/
inductive Plan where
  | check (player : PlayerId)
  | commit (player : PlayerId) (action : Action) (chips : Chips) (allIn : Bool)
  | fold (player : PlayerId)
deriving Repr, DecidableEq

end Holdem
