/-!
# `RailsUpgrade.Ordered`: lists without repetitions, and entries under keys

Files, names and rules are kept in the order in which they first came up.

* `addNew` adds the members of a list that are not there yet, `distinct` keeps the first of equal
  members.
* `sortedTexts` puts texts in the order of their code points.
* `Keyed.put` files a value under a key: in the place of the value that was there, else at the end.
-/

set_option autoImplicit false

namespace RailsUpgrade

/-- Adds to a list those members of another one that are new. -/
def addNew {α : Type} [BEq α] (seen more : List α) : List α :=
  more.foldl (fun seen x => if seen.contains x then seen else seen ++ [x]) seen

/-- The members of a list, each once, in the order of their first occurrence. -/
def distinct {α : Type} [BEq α] (xs : List α) : List α := addNew [] xs

/-- Whether a text comes before another one: at the first difference its code point is smaller, or
it ends there. -/
def comesBefore : List Char → List Char → Bool
  | _, [] => false
  | [], _ :: _ => true
  | a :: as, b :: bs => a.toNat < b.toNat || (a.toNat == b.toNat && comesBefore as bs)

/-- Texts in the order of their code points. -/
def sortedTexts (xs : List String) : List String :=
  xs.mergeSort fun a b => !comesBefore b.toList a.toList

namespace Keyed

variable {α : Type}

/-- Files a value under a key. -/
def put (key : String) (value : α) : List (String × α) → List (String × α)
  | [] => [(key, value)]
  | entry :: rest =>
    if entry.1 == key then (key, value) :: rest else entry :: put key value rest

/-- Takes out what is filed under a key. -/
def erase (key : String) (entries : List (String × α)) : List (String × α) :=
  entries.filter fun entry => entry.1 != key

/-- The keys, in order. -/
def keys (entries : List (String × α)) : List String := entries.map (·.1)

end Keyed

end RailsUpgrade
