/-!
# The greatest of several

All the places of a list at which nothing greater is found, in ascending order. The winners of a
pot are found this way, so that tied hands are all found and a list without hands has no winner.
-/
namespace Holdem

/-- Whether no item of the list is greater than `x`. -/
def isGreatest {α : Type} [Ord α] (items : List α) (x : α) : Bool :=
  items.all fun y => (compare y x).isLE

/-- The places of the greatest items. -/
def greatestPlaces {α : Type} [Ord α] (items : List α) : List Nat :=
  items.zipIdx.filterMap fun (x, i) => if isGreatest items x then some i else none

end Holdem
