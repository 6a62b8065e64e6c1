/-!
# Trees of plain data

What is kept outside the program, in a message or a file, is a tree of texts, numbers, lists and
records. A value with one of several shapes is written as the name of its shape, or as a record
whose only field has that name and holds the rest. A structure may also be given as the list of
its fields in order, but the fields under the name of a shape only as a record. A reader takes a
tree to a value, or to nothing if it is not the tree of one.
-/
namespace Holdem.Wire

/-- A number is its digits with a sign, and how many of them stand after the decimal point. -/
inductive Tree where
  | null
  | bool (b : Bool)
  | number (digits : Int) (places : Nat)
  | text (s : String)
  | list (items : List Tree)
  | record (fields : List (String × Tree))
deriving Inhabited

abbrev Reader (α : Type) := Tree → Option α

namespace Tree

/-- The field of a record. What is missing is the same as null. -/
def field (name : String) : Tree → Tree
  | record fields => (fields.lookup name).getD null
  | _ => null

/-- The field of a record, if it is there at all. -/
def field? (name : String) : Tree → Option Tree
  | record fields => fields.lookup name
  | _ => none

/-- The fields of a record by their names. -/
def named? (names : List String) : Tree → Option (List Tree)
  | t@(record _) => some (names.map fun name => t.field name)
  | _ => none

/-- The fields of a record by their names, or the items of a list that stand for them in order.
The last `spare` of the latter may be missing. -/
def fields? (names : List String) (spare : Nat) : Tree → Option (List Tree)
  | t@(record _) => t.named? names
  | list items =>
      if items.length ≤ names.length ∧ names.length ≤ items.length + spare then
        some (items ++ List.replicate (names.length - items.length) null)
      else none
  | _ => none

/-- The name of a shape, and what is held under it. -/
def shape? : Reader (String × Option Tree)
  | text name => some (name, none)
  | record [(name, held)] => some (name, some held)
  | _ => none

end Tree

/-! ## Reading -/

def integer? : Reader Int
  | .number digits 0 => some digits
  | _ => none

def natural? (limit : Nat) : Reader Nat := fun t =>
  match integer? t with
  | some n => if 0 ≤ n ∧ n ≤ limit then some n.toNat else none
  | none => none

def text? : Reader String
  | .text s => some s
  | _ => none

def bool? : Reader Bool
  | .bool b => some b
  | _ => none

def optional? {α : Type} (read : Reader α) : Reader (Option α)
  | .null => some none
  | t => (read t).map some

def list? {α : Type} (read : Reader α) : Reader (List α)
  | .list items => items.mapM read
  | _ => none

def pair? {α β : Type} (left : Reader α) (right : Reader β) : Reader (α × β)
  | .list [a, b] => do return (← left a, ← right b)
  | _ => none

/-- A shape that holds nothing. -/
def plain? {α : Type} (names : List (String × α)) : Reader α := fun t =>
  match t.shape? with
  | some (name, none) | some (name, some .null) => names.lookup name
  | _ => none

/-! ## Writing -/

def natural (n : Nat) : Tree := .number n 0

def naturals (ns : List Nat) : Tree := .list (ns.map natural)

def many {α : Type} (write : α → Tree) (items : List α) : Tree := .list (items.map write)

def optional {α : Type} (write : α → Tree) : Option α → Tree
  | some a => write a
  | none => .null

/-- A shape that holds something. -/
def shape (name : String) (held : Tree) : Tree := .record [(name, held)]

/-- A shape that holds a record. -/
def shapeOf (name : String) (fields : List (String × Tree)) : Tree := shape name (.record fields)

/-- A shape that holds nothing. -/
def plain {α : Type} [DecidableEq α] (names : List (String × α)) (a : α) : Tree :=
  .text (((names.find? fun e => e.2 = a).map (·.1)).getD "")

end Holdem.Wire
