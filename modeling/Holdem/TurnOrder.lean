import Holdem.Player

/-!
# Turns

Players in seat order, with a pointer to the one whose turn it is. Turns go round: after the last
player comes the first. When a player leaves the order, the one after them takes their place, and
the turn if it was theirs.
-/
namespace Holdem

inductive TurnError where
  | empty
  | notFound (player : PlayerId)
deriving Repr, DecidableEq

def TurnError.message : TurnError → String
  | empty => "turn sequence is empty"
  | notFound player => s!"{playerText player} is not in the turn sequence"

structure TurnOrder where
  order : List PlayerId := []
  current : Nat := 0
deriving Repr, DecidableEq, Inhabited

namespace TurnOrder

def size (t : TurnOrder) : Nat := t.order.length

def isEmpty (t : TurnOrder) : Bool := t.order.isEmpty

def contains (t : TurnOrder) (player : PlayerId) : Bool := t.order.contains player

/-- Once around, starting with the player whose turn it is. -/
def lap (t : TurnOrder) : List PlayerId :=
  let start := t.current % t.order.length
  t.order.drop start ++ t.order.take start

/-- The place after `i`, going round. -/
def after (t : TurnOrder) (i : Nat) : Nat := (i + 1) % t.order.length

/-- The place before `i`, going round. -/
def before (t : TurnOrder) (i : Nat) : Nat := (i + t.order.length - 1) % t.order.length

/-- The player at a place. No place is taken in an empty order. -/
def player (t : TurnOrder) (i : Nat) : Except TurnError PlayerId :=
  match t.order[i]? with
  | some p => .ok p
  | none => .error .empty

def place (t : TurnOrder) (p : PlayerId) : Except TurnError Nat :=
  match t.order.findIdx? (· = p) with
  | some i => .ok i
  | none => .error (.notFound p)

/-- The player whose turn it is. -/
def now (t : TurnOrder) : Except TurnError PlayerId := t.player t.current

def peekNext (t : TurnOrder) : Except TurnError PlayerId := t.player (t.after t.current)

def peekPrevious (t : TurnOrder) : Except TurnError PlayerId := t.player (t.before t.current)

/-- Moves the pointer to a place, provided somebody is there. -/
def moveTo (t : TurnOrder) (i : Nat) : Except TurnError (PlayerId × TurnOrder) :=
  (t.player i).map fun p => (p, { t with current := i })

/-- Passes the turn on. -/
def next (t : TurnOrder) : Except TurnError (PlayerId × TurnOrder) := t.moveTo (t.after t.current)

/-- Passes the turn back. -/
def previous (t : TurnOrder) : Except TurnError (PlayerId × TurnOrder) :=
  t.moveTo (t.before t.current)

/-- Gives the turn to `p`. -/
def setCurrent (t : TurnOrder) (p : PlayerId) : Except TurnError TurnOrder :=
  (t.place p).map fun i => { t with current := i }

/-- The player that comes after `p`, whosever turn it is. -/
def nextTo (t : TurnOrder) (p : PlayerId) : Except TurnError PlayerId :=
  (t.place p).bind fun i => t.player (t.after i)

/-- Takes `p` out of the order. -/
def remove (t : TurnOrder) (p : PlayerId) : Except TurnError TurnOrder :=
  (t.place p).map fun i =>
    let order := t.order.eraseIdx i
    let current := if i < t.current then t.current - 1 else t.current
    { order, current := if order.length ≤ current then 0 else current }

section Members
variable {t : TurnOrder} {p : PlayerId}

/-- A player of the order has a place in it. -/
theorem place_of_mem (hp : p ∈ t.order) :
    ∃ i, t.place p = .ok i ∧ i < t.order.length ∧ t.order[i]? = some p := by
  unfold place
  split
  · next i hi =>
      obtain ⟨hlt, hpi, _⟩ := List.findIdx?_eq_some_iff_getElem.mp hi
      exact ⟨i, rfl, hlt, by rw [List.getElem?_eq_getElem hlt]; simpa using hpi⟩
  · next hnone =>
      have hne := List.findIdx?_eq_none_iff.mp hnone p hp
      simp at hne

theorem place_of_not_mem (hp : p ∉ t.order) : t.place p = .error (.notFound p) := by
  have hnone : t.order.findIdx? (· = p) = none := by
    rw [List.findIdx?_eq_none_iff]
    exact fun q hq => decide_eq_false fun h => hp (h ▸ hq)
  rw [place, hnone]

theorem player_of_lt {i : Nat} (hi : i < t.order.length) :
    ∃ p ∈ t.order, t.player i = .ok p ∧ t.order[i]? = some p := by
  refine ⟨t.order[i], List.getElem_mem hi, ?_, List.getElem?_eq_getElem hi⟩
  rw [player, List.getElem?_eq_getElem hi]

/-- The turn can be given to a player of the order. -/
theorem setCurrent_of_mem (hp : p ∈ t.order) :
    ∃ i, t.setCurrent p = .ok { t with current := i } ∧ i < t.order.length ∧
      t.order[i]? = some p := by
  obtain ⟨i, hi, hlt, hip⟩ := place_of_mem hp
  exact ⟨i, by rw [setCurrent, hi]; rfl, hlt, hip⟩

theorem nextTo_of_mem (hp : p ∈ t.order) : ∃ q ∈ t.order, t.nextTo p = .ok q := by
  obtain ⟨i, hi, hlt, _⟩ := place_of_mem hp
  have hpos : 0 < t.order.length := Nat.zero_lt_of_lt hlt
  obtain ⟨q, hq, hok, _⟩ := player_of_lt (t := t) (Nat.mod_lt (i + 1) hpos)
  exact ⟨q, hq, by rw [nextTo, hi]; exact hok⟩

theorem mem_of_remove {t' : TurnOrder} (h : t.remove p = .ok t') : p ∈ t.order := by
  refine Decidable.byContradiction fun hp => ?_
  rw [remove, place_of_not_mem hp] at h
  cases h

end Members

end TurnOrder
end Holdem
