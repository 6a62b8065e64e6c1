import Holdem.Hand.Phase
import Holdem.Pot

/-!
# A betting round

The bets of one street: what everybody has put in, the highest of it, the least amount a further
raise has to add, and who still owes an action.
-/
namespace Holdem

structure Round where
  phase : Phase
  highestBet : Chips := 0
  minRaise : Chips
  lastAggressor : Option PlayerId := none
  contributions : NatMap Chips := ∅
  pending : NatSet := ∅
deriving Repr, DecidableEq, Inhabited

namespace Round

def contribution (r : Round) (player : PlayerId) : Chips := r.contributions.chips player

def total (r : Round) : Chips := r.contributions.totalChips

def owesAction (r : Round) (player : PlayerId) : Bool := player ∈ r.pending

/-- Nobody left owes an action. -/
def isClosed (r : Round) : Bool := r.pending.isEmpty

/-- What `player` has to add to match the highest bet. -/
def toCall (r : Round) (player : PlayerId) : Chips := r.highestBet - r.contribution player

/-- The least total that a bet or a raise has to reach. -/
def minRaiseTo (r : Round) : Chips := cappedAdd r.highestBet r.minRaise

/-- Puts chips in. An entry is made even for none. -/
def commit (r : Round) (player : PlayerId) (chips : Chips) : Round :=
  { r with contributions := r.contributions.addChips player chips }

def settleAction (r : Round) (player : PlayerId) : Round :=
  { r with pending := r.pending.erase player }

/-- Takes note of a forced bet. -/
def postBlind (r : Round) (player : PlayerId) (chips : Chips) : Round :=
  let r := r.commit player chips
  { r with highestBet := max r.highestBet (r.contribution player) }

/-- Puts chips in by choice. If that is the highest bet now, everybody in `able` owes an answer
to it, and a raise by at least the minimum becomes the new minimum. -/
def raiseOrCall (r : Round) (player : PlayerId) (chips : Chips) (able : List PlayerId) : Round :=
  let r := r.commit player chips
  let total := r.contribution player
  if r.highestBet < total then
    { r with
      minRaise := max r.minRaise (total - r.highestBet)
      highestBet := total
      lastAggressor := some player
      pending := .ofList able }
  else r

end Round
end Holdem
