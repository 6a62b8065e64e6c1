import Holdem.Mailroom
import Holdem.NatMap
import Holdem.Player

/-!
# Telling an audience

An audience is a set of listeners, at most one under each player's number. Publishing walks the
listeners that are there when it begins. A listener may change the audience while it is being
told something; such changes count from the next publishing on. Afterwards the listeners that
turned out to be closed are dropped, unless another one has taken their place in the meantime.
Equality of listeners is what makes two of them the same.
-/
namespace Holdem

variable {L W : Type}

structure Audience (L : Type) where
  name : String
  listeners : NatMap L := ∅

/-- What a listener may do to the audience while it is being told something. -/
inductive Change (L : Type) where
  | subscribe (id : PlayerId) (listener : L)
  | unsubscribe (id : PlayerId)

/-- How a listener reacts to an event: its answer, the changes it makes, and the world after. -/
structure Reaction (L W : Type) where
  receipt : Receipt
  changes : List (Change L) := []
  world : W

namespace Audience

def subscribe (a : Audience L) (id : PlayerId) (listener : L) : Audience L :=
  { a with listeners := a.listeners.insert id listener }

def unsubscribe (a : Audience L) (id : PlayerId) : Audience L :=
  { a with listeners := a.listeners.erase id }

def isSubscribed (a : Audience L) (id : PlayerId) : Bool := a.listeners.contains id

def size (a : Audience L) : Nat := a.listeners.size

def isEmpty (a : Audience L) : Bool := a.listeners.isEmpty

def change (a : Audience L) : Change L → Audience L
  | .subscribe id listener => a.subscribe id listener
  | .unsubscribe id => a.unsubscribe id

/-- How far a publishing has come. -/
structure Progress (L W : Type) where
  audience : Audience L
  world : W
  accepted : Nat := 0
  closed : List (PlayerId × L) := []

/-- Tells one listener. -/
def Progress.tell (react : PlayerId → L → W → Reaction L W) (p : Progress L W)
    (e : PlayerId × L) : Progress L W :=
  let r := react e.1 e.2 p.world
  { audience := r.changes.foldl change p.audience
    world := r.world
    accepted := if r.receipt = .taken then p.accepted + 1 else p.accepted
    closed := if r.receipt = .closed then p.closed ++ [e] else p.closed }

/-- Drops a listener if it is still the one under its number. -/
def dropSame [DecidableEq L] (a : Audience L) (e : PlayerId × L) : Audience L :=
  if a.listeners.get? e.1 = some e.2 then a.unsubscribe e.1 else a

/-- Tells some listeners in turn, and answers how many accepted. -/
def publishTo [DecidableEq L] (order : List (PlayerId × L)) (a : Audience L)
    (react : PlayerId → L → W → Reaction L W) (w : W) : Nat × Audience L × W :=
  let p := order.foldl (Progress.tell react) { audience := a, world := w }
  (p.accepted, p.closed.foldl dropSame p.audience, p.world)

/-- Tells every listener, the least number first. -/
def publish [DecidableEq L] (a : Audience L) (react : PlayerId → L → W → Reaction L W) (w : W) :
    Nat × Audience L × W :=
  publishTo a.listeners.entries a react w

end Audience
end Holdem
