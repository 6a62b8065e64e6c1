/-!
# Boxes for messages

A listener owns a box into which messages are put and from which they are taken together. A box
may have room for only so many, and once its owner is gone it takes no more. Boxes are numbered
in the order in which they are opened.
-/
namespace Holdem

/-- What becomes of a message that is handed to a listener. -/
inductive Receipt where
  | taken
  | full
  | closed
deriving Repr, DecidableEq, Inhabited

inductive DeliveryError where
  | full
  | closed
deriving Repr, DecidableEq

def DeliveryError.message : DeliveryError → String
  | full => "listener is full"
  | closed => "listener is closed"

structure Mailbox (α : Type) where
  room : Option Nat := none
  waiting : List α := []
  owned : Bool := true
deriving Repr, DecidableEq

namespace Mailbox

variable {α : Type}

def isFull (b : Mailbox α) : Bool := b.room.any (· ≤ b.waiting.length)

def put (b : Mailbox α) (message : α) : Receipt × Mailbox α :=
  if !b.owned then (.closed, b)
  else if b.isFull then (.full, b)
  else (.taken, { b with waiting := b.waiting ++ [message] })

end Mailbox

structure Mailroom (α : Type) where
  boxes : List (Mailbox α) := []
deriving Repr, DecidableEq

namespace Mailroom

variable {α : Type}

/-- Opens a box with room for so many messages, or for any number. -/
def openBox (m : Mailroom α) (room : Option Nat) : Nat × Mailroom α :=
  (m.boxes.length, ⟨m.boxes ++ [{ room := room }]⟩)

/-- Puts a message into a box. A box that was never opened counts as closed. -/
def put (m : Mailroom α) (box : Nat) (message : α) : Receipt × Mailroom α :=
  match m.boxes[box]? with
  | none => (.closed, m)
  | some b =>
      let (receipt, b) := b.put message
      (receipt, ⟨m.boxes.set box b⟩)

/-- Takes everything out of a box, if it has an owner. -/
def takeAll (m : Mailroom α) (box : Nat) : Option (List α × Mailroom α) :=
  match m.boxes[box]? with
  | none => none
  | some b =>
      if b.owned then some (b.waiting, ⟨m.boxes.set box { b with waiting := [] }⟩) else none

/-- The owner of a box goes away, with what is in it. -/
def hangUp (m : Mailroom α) (box : Nat) : Mailroom α :=
  ⟨m.boxes.modify box fun b => { b with waiting := [], owned := false }⟩

end Mailroom
end Holdem
