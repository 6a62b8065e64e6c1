import Holdem.HandValue
import Holdem.Maximal
import Holdem.NatMap
import Holdem.NatSet
import Holdem.Player

/-!
# Pots

What each player has put into a hand is kept as one number, and the main pot and the side pots are
read off those numbers. A folded player's chips stay where they are; the player merely stops being
able to win them. Every height at which some standing player's contribution ends is the top of a
pot, which holds what everybody, folded or not, put in between that height and the one below.
-/
namespace Holdem

/-- Some of the chips, and the players that can win them. -/
structure Pot where
  amount : Chips
  eligible : NatSet
deriving Repr, DecidableEq, Inhabited

def Pot.text (p : Pot) : String := s!"{p.amount} ({p.eligible.size} eligible)"

/-- Chips won by each player. -/
abbrev Payouts := NatMap Chips

/-- The chips under `player`, none if there is no entry. -/
def NatMap.chips (m : NatMap Chips) (player : PlayerId) : Chips := (m.get? player).getD 0

/-- Adds to the chips under `player`. -/
def NatMap.addChips (m : NatMap Chips) (player : PlayerId) (amount : Chips) : NatMap Chips :=
  m.insert player (m.chips player + amount)

/-- All the chips of a map. -/
def NatMap.totalChips (m : NatMap Chips) : Chips := m.values.sum

inductive PotError where
  | missingHand (player : PlayerId)
deriving Repr, DecidableEq

def PotError.message : PotError → String
  | missingHand player => s!"no hand was shown for {playerText player}"

/-- What has been put into a hand, and who can no longer win any of it. -/
structure Stakes where
  contributions : NatMap Chips := ∅
  folded : NatSet := ∅
deriving Repr, DecidableEq, Inhabited

namespace Stakes

def contribute (s : Stakes) (player : PlayerId) (amount : Chips) : Stakes :=
  if amount = 0 then s
  else { s with contributions := s.contributions.addChips player amount }

def fold (s : Stakes) (player : PlayerId) : Stakes :=
  { s with folded := s.folded.insert player }

def contribution (s : Stakes) (player : PlayerId) : Chips := s.contributions.chips player

def total (s : Stakes) : Chips := s.contributions.totalChips

def isEmpty (s : Stakes) : Bool := s.total = 0

/-- The contributions of those still standing. -/
def standing (s : Stakes) : List (PlayerId × Chips) :=
  s.contributions.entries.filter fun e => e.1 ∉ s.folded

/-- The distinct heights of the standing contributions, lowest first. -/
def levels (s : Stakes) : List Chips := (NatSet.ofList (s.standing.map (·.2))).members

/-- Those standing whose contribution reaches a height. -/
def reaching (s : Stakes) (level : Chips) : NatSet :=
  .ofList ((s.standing.filter fun e => level ≤ e.2).map (·.1))

/-- What everybody put in above one height and up to another. -/
def between (s : Stakes) (low high : Chips) : Chips :=
  (s.contributions.values.map fun c => min c high - min c low).sum

/-- What everybody put in above a height. -/
def above (s : Stakes) (low : Chips) : Chips :=
  (s.contributions.values.map fun c => c - min c low).sum

/-- The pots above a height, one for each further level. Folded players may have put in more than
anybody left standing; nobody can win that on its own, so the last pot has no upper bound. -/
def potsAbove (s : Stakes) (low : Chips) : List Chips → List Pot
  | [] => []
  | [top] => [⟨s.above low, s.reaching top⟩]
  | level :: rest => ⟨s.between low level, s.reaching level⟩ :: s.potsAbove level rest

/-- The main pot first, then the side pots by ascending height. -/
def pots (s : Stakes) : List Pot :=
  match s.levels with
  | [] => if s.total = 0 then [] else [⟨s.total, ∅⟩]
  | levels => s.potsAbove 0 levels

/-- Everything goes to the last player standing. -/
def awardAll (s : Stakes) (winner : PlayerId) : Payouts :=
  if s.total = 0 then ∅ else (∅ : Payouts).insert winner s.total

end Stakes

namespace Pot

/-- Those of `order` who win the pot: the eligible ones whose hands no other beats. -/
def winners (p : Pot) (hands : NatMap HandValue) (order : List PlayerId) : List PlayerId :=
  let contenders := order.filter (· ∈ p.eligible)
  let values := contenders.filterMap hands.get?
  contenders.filter fun q => (hands.get? q).any (isGreatest values)

/-- An even split, the odd chips going one each to the first of the winners. -/
def split (amount : Chips) (winners : List PlayerId) : List (PlayerId × Chips) :=
  winners.zipIdx.map fun (w, i) =>
    (w, amount / winners.length + if i < amount % winners.length then 1 else 0)

/-- Adds the shares of a pot to the payouts. -/
def pay (payouts : Payouts) (shares : List (PlayerId × Chips)) : Payouts :=
  shares.foldl (fun paid (w, won) => if won = 0 then paid else paid.addChips w won) payouts

/-- Awards one pot on top of earlier payouts. -/
def award (p : Pot) (hands : NatMap HandValue) (order : List PlayerId) (payouts : Payouts) :
    Except PotError Payouts :=
  match p.eligible.members.find? fun q => !hands.contains q with
  | some q => .error (.missingHand q)
  | none => .ok (pay payouts (split p.amount (p.winners hands order)))

end Pot

/-- Awards every pot to the best hand or hands among its eligible players. `order` is the seat
order from the left of the button, in which the odd chips of a split are handed out. -/
def Stakes.distribute (s : Stakes) (hands : NatMap HandValue) (order : List PlayerId) :
    Except PotError Payouts :=
  s.pots.foldlM (fun payouts pot => pot.award hands order payouts) ∅

end Holdem
