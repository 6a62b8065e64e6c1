/-!
# The phases of a hand

Three streets are dealt after the opening bets: the flop with three cards, the turn and the river
with one each.
-/
namespace Holdem

inductive Phase where
  | waiting
  | preFlop
  | flop
  | turn
  | river
  | showdown
deriving Repr, DecidableEq, Inhabited

namespace Phase

def isBetting : Phase → Bool
  | preFlop | flop | turn | river => true
  | waiting | showdown => false

/-- The streets still to be dealt, each with the number of its cards. -/
def streets : Phase → List (Phase × Nat)
  | preFlop => [(flop, 3), (turn, 1), (river, 1)]
  | flop => [(turn, 1), (river, 1)]
  | turn => [(river, 1)]
  | waiting | river | showdown => []

def nextStreet (p : Phase) : Option (Phase × Nat) := p.streets.head?

theorem streets_of_streets_eq_cons {p q : Phase} {n : Nat} {rest : List (Phase × Nat)}
    (h : p.streets = (q, n) :: rest) : q.streets = rest := by
  cases p
  all_goals simp only [streets, List.cons.injEq, Prod.mk.injEq, reduceCtorEq] at h
  all_goals
    obtain ⟨⟨hq, _⟩, hrest⟩ := h
    rw [← hq, ← hrest]
    rfl

def text : Phase → String
  | waiting => "waiting"
  | preFlop => "pre-flop"
  | flop => "flop"
  | turn => "turn"
  | river => "river"
  | showdown => "showdown"

end Phase
end Holdem
