import RailsUpgrade.Calendar
import RailsUpgrade.Decimal.Shortest
import RailsUpgrade.Text.Lines
import RailsUpgrade.Text.Number
import RailsUpgrade.Text.Quoted

/-!
# `RailsUpgrade.Settings.Value`: values of a settings file

A settings file holds values of a few kinds. `Value.shown` writes any of them as text, the way a
version that was written as a number is understood.
-/

set_option autoImplicit false

namespace RailsUpgrade

/-- A value of a settings file. -/
inductive Value where
  | null
  | bool (b : Bool)
  | int (n : Int)
  | float (x : Binary64)
  | text (s : String)
  /-- A text with halves of surrogate pairs, for which U+FFFD stands. -/
  | halved (s : String)
  | bytes (b : List UInt8)
  | day (d : Day)
  | moment (m : Moment)
  | list (items : List Value)
  /-- An entry of a list that keeps a key with its value. -/
  | pair (key value : Value)
  | set (items : List Value)
  | map (entries : List (Value × Value))
  /-- A list or mapping that stands inside itself. -/
  | cycle (isMap : Bool)
  deriving Repr

namespace Value

/-- The integer that a truth value or an integer is. -/
def int? : Value → Option Int
  | .bool b => some (if b then 1 else 0)
  | .int n => some n
  | _ => none

/-- Whether two values are the same key of a mapping. Numbers are compared by their value, and truth
values are the numbers zero and one. Collections are no keys. -/
def sameKey (a b : Value) : Bool :=
  match a.int?, b.int? with
  | some m, some n => m == n
  | some n, none => match b with
    | .float x => x.isInt n
    | _ => false
  | none, some n => match a with
    | .float x => x.isInt n
    | _ => false
  | none, none => match a, b with
    | .null, .null => true
    | .float x, .float y => x.equals y
    | .text s, .text t | .halved s, .halved t => s == t
    | .bytes s, .bytes t => s == t
    | .day d, .day e => d == e
    | .moment m, .moment n => m == n
    | _, _ => false

/-- Whether a value is the text `s`. -/
def isText (s : String) : Value → Bool
  | .text t => t == s
  | _ => false

/-- Whether a value can be the key of a mapping. -/
def isKey : Value → Bool
  | .list _ | .set _ | .map _ | .cycle _ | .pair _ _ => false
  | _ => true

/-- Whether a value says nothing: zero, false, empty or absent. -/
def isVoid : Value → Bool
  | .null => true
  | .bool b => !b
  | .int n => n == 0
  | .float x => x.isZero
  | .text s | .halved s => s.isEmpty
  | .bytes b => b.isEmpty
  | .list items | .set items => items.isEmpty
  | .map entries => entries.isEmpty
  | .day _ | .moment _ | .pair _ _ | .cycle _ => false

/-- What a value is called. -/
def kindName : Value → String
  | .null => "NoneType"
  | .bool _ => "bool"
  | .int _ => "int"
  | .float _ => "float"
  | .text _ | .halved _ => "str"
  | .bytes _ => "bytes"
  | .day _ => "datetime.date"
  | .moment _ => "datetime.datetime"
  | .list _ | .cycle false => "list"
  | .pair _ _ => "tuple"
  | .set _ => "set"
  | .map _ | .cycle true => "dict"

mutual

/-- A value inside another one, where texts are quoted. -/
def inner : Value → String
  | .null => "None"
  | .bool b => if b then "True" else "False"
  | .int n => toString n
  | .float x => x.text
  | .text s | .halved s => Text.quoted s
  | .bytes b => Text.quotedBytes b
  | .day d => d.inner
  | .moment m => m.inner
  | .list items => "[" ++ innerList items ++ "]"
  | .pair key value => "(" ++ inner key ++ ", " ++ inner value ++ ")"
  | .set [] => "set()"
  | .set (v :: rest) => "\x7b" ++ innerList (v :: rest) ++ "\x7d"
  | .map entries => "\x7b" ++ innerEntries entries ++ "\x7d"
  | .cycle isMap => if isMap then "\x7b...\x7d" else "[...]"

/-- Values with commas between them. -/
def innerList : List Value → String
  | [] => ""
  | [v] => inner v
  | v :: rest => inner v ++ ", " ++ innerList rest

/-- The entries of a mapping with commas between them. -/
def innerEntries : List (Value × Value) → String
  | [] => ""
  | [(k, v)] => inner k ++ ": " ++ inner v
  | (k, v) :: rest => inner k ++ ": " ++ inner v ++ ", " ++ innerEntries rest

end

/-- A value as text. -/
def shown : Value → String
  | .text s | .halved s => s
  | .day d => d.text
  | .moment m => m.text
  | v => inner v

mutual

/-- Whether a value holds an integer with more digits than are shown. -/
def isUnshown : Value → Bool
  | .int n => Text.digitLimit < (Nat.toDigits 10 n.natAbs).length
  | .list items | .set items => anyUnshown items
  | .pair key value => isUnshown key || isUnshown value
  | .map entries => anyEntryUnshown entries
  | _ => false

/-- Whether one of several values holds an integer with more digits than are shown. -/
def anyUnshown : List Value → Bool
  | [] => false
  | v :: rest => isUnshown v || anyUnshown rest

/-- Whether an entry holds an integer with more digits than are shown. -/
def anyEntryUnshown : List (Value × Value) → Bool
  | [] => false
  | (k, v) :: rest => isUnshown k || isUnshown v || anyEntryUnshown rest

end

/-- Adds an entry to a mapping. An entry with the same key is replaced where it stands. -/
def put (key value : Value) : List (Value × Value) → List (Value × Value)
  | [] => [(key, value)]
  | (k, v) :: rest => if k.sameKey key then (k, value) :: rest else (k, v) :: put key value rest

/-- The value under a key that is a text. -/
def get? (key : String) (entries : List (Value × Value)) : Option Value :=
  (entries.find? fun e => e.1.isText key).map (·.2)

end Value

end RailsUpgrade
