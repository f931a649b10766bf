import RailsUpgrade.Pattern.Search
import RailsUpgrade.Text.Lines
import RailsUpgrade.Text.Number

/-!
# `RailsUpgrade.Pattern.Spelling`: how patterns are spelled

`Pattern.compile` reads a pattern from its spelling. The grammar:

* a character stands for itself, `.` for any character, brackets for a set;
* a backslash escapes a character, names a class (`d`, `s`, `w` and their complements in upper
  case), an edge (`A`, `Z`, `b`, `B`), a control character, a code point (`x`, `u`, `U`, octal
  digits) or an earlier group (a number);
* parentheses group, with a question mark after the opening one for groups without a number,
  named groups, references, conditions, comments, looks ahead and behind, atomic groups and flags;
* `*`, `+`, `?` and braces repeat what precedes them, lazily with a `?` after them and without
  giving back with a `+`; a brace that opens no count stands for itself;
* a bar separates alternatives, `^` and `$` are the ends of a line or of the text.

Flags for the whole pattern may only stand at its start. A look behind has a fixed width, so that
it knows where to begin.

What all alternatives begin with is moved in front of them, and alternatives of one character each
become a set. Both keep the meaning, but for letters past the basic plane: see
`RailsUpgrade.Pattern.CharSet`.
-/

set_option autoImplicit false

namespace RailsUpgrade.Pattern

/-- Why a spelling is no pattern. -/
inductive SpellingError where
  | trailingBackslash
  | badEscape
  | unterminatedSet
  | badRange
  | nothingToRepeat
  | repeatedTwice
  | leastAboveMost
  | unclosedGroup
  | unopenedGroup
  | badGroupName
  | repeatedGroupName
  | unknownGroup
  | openGroup
  | groupOfSameLook
  | unknownExtension
  | unclosedComment
  | badFlags
  | lateFlags
  | lookBehindOfVaryingWidth
  | repeatForbidden
  | countTooLarge
  | countTooLong (count : Text.Overlong)
  | narrowAndWide
  deriving DecidableEq, Repr

/-- What is said of a spelling that is not only no pattern but ends the run. -/
def SpellingError.fatal? : SpellingError → Option String
  | .countTooLarge => some "the repetition number is too large"
  | .countTooLong count => some count.message
  | .narrowAndWide => some "ASCII and UNICODE flags are incompatible"
  | _ => none

/-- How the text of a pattern is to be taken. -/
structure Flags where
  /-- Case does not matter. -/
  ignoreCase : Bool := false
  /-- `^` and `$` are the ends of each line. -/
  lines : Bool := false
  /-- A dot takes line feeds too. -/
  dotAll : Bool := false
  /-- Blanks and comments in the spelling do not count. -/
  spaced : Bool := false
  /-- Classes and case are those of ASCII. -/
  narrow : Bool := false
  /-- Classes and case are expressly those of all scripts. -/
  wide : Bool := false
  /-- Nothing may be repeated. -/
  once : Bool := false
  deriving DecidableEq, Repr

/-- A spelling is a sequence of plain characters and of characters after a backslash. A backslash
with nothing after it can only be the last token. -/
inductive Token where
  | plain (c : Char)
  | escaped (c : Char)
  | dangling
  deriving DecidableEq, Repr

/-- Cuts a spelling into tokens. -/
def tokens : List Char → List Token
  | [] => []
  | '\\' :: [] => [.dangling]
  | '\\' :: c :: rest => .escaped c :: tokens rest
  | c :: rest => .plain c :: tokens rest

/-- The least and the greatest number of characters that a pattern takes; `none` is no bound. -/
structure Width where
  least : Nat
  most : Option Nat
  deriving DecidableEq, Repr

/-- The widths of one pattern after another. -/
def Width.add (a b : Width) : Width :=
  ⟨a.least + b.least, do return (← a.most) + (← b.most)⟩

/-- The widths of either of two patterns. -/
def Width.either (a b : Width) : Width :=
  ⟨min a.least b.least, do return max (← a.most) (← b.most)⟩

/-- The widths of a repeated pattern. -/
def Width.repeated (a : Width) (least : Nat) (most : Option Nat) : Width :=
  ⟨a.least * least, match a.most, most with
    | some 0, _ => some 0
    | some n, some m => some (n * m)
    | _, _ => none⟩

/-- The widths of a pattern, given those of the groups that it may refer to. -/
def Expr.width (groups : List (Nat × Width)) : Expr → Width
  | .empty | .anchor _ | .look _ _ _ => ⟨0, some 0⟩
  | .one _ => ⟨1, some 1⟩
  | .seq p q => (p.width groups).add (q.width groups)
  | .alt p q => (p.width groups).either (q.width groups)
  | .group _ p | .atomic p => p.width groups
  | .again i _ => (groups.lookup i).getD ⟨0, none⟩
  | .rep p least most _ => (p.width groups).repeated least most
  | .ifGroup _ p q => (p.width groups).either (q.width groups)

/-- Whether a look behind can step back by a width: it has to be fixed and fit in 32 bits. -/
def Width.steps (w : Width) : Bool := w.most == some w.least && w.least ≤ 4294967295

/-- What is known while a spelling is read. -/
structure Scope where
  flags : Flags
  /-- How many groups have been opened. -/
  opened : Nat := 0
  /-- The names of groups and their numbers. -/
  names : List (String × Nat) := []
  /-- The groups that have been closed, with their widths. -/
  closed : List (Nat × Width) := []
  /-- Inside a look behind: how many groups had been opened before it. -/
  lookFloor : Option Nat := none
  /-- The greatest number of a group that a condition asks for. -/
  asked : Nat := 0
  /-- A fault that shows only after the whole spelling has been read. -/
  late : Option SpellingError := none
  deriving Repr

/-- How letters are compared under the flags in force. -/
def Flags.letters (f : Flags) : Letters :=
  if f.ignoreCase then (if f.narrow then .narrow else .wide) else .exact

/-- A code point as a member of a set. -/
def codeItem (n : Nat) : CharItem :=
  if n.isValidChar then .one (Char.ofNat n) else .range n n

/-- The value of a hexadecimal digit. -/
def hexValue? (c : Char) : Option Nat :=
  if c.isDigit then some (c.toNat - 48)
  else if 'a' ≤ c && c ≤ 'f' then some (c.toNat - 87)
  else if 'A' ≤ c && c ≤ 'F' then some (c.toNat - 55)
  else none

/-- Reads exactly `n` hexadecimal digits onto `value`. -/
def hexCode? : Nat → Nat → List Token → Option (Nat × List Token)
  | 0, value, rest => some (value, rest)
  | n + 1, value, .plain c :: rest => (hexValue? c).bind fun d => hexCode? n (16 * value + d) rest
  | _ + 1, _, _ => none

/-- An octal digit. -/
def isOctal (c : Char) : Bool := '0' ≤ c && c ≤ '7'

/-- Reads up to `n` octal digits onto `value`. -/
def octalCode : Nat → Nat → List Token → Nat × List Token
  | n + 1, value, .plain c :: rest =>
    if isOctal c then octalCode n (8 * value + (c.toNat - 48)) rest
    else (value, .plain c :: rest)
  | _, value, rest => (value, rest)

/-- The control character of an escape with a letter. -/
def control? (c : Char) : Option Nat :=
  match c with
  | 'a' => some 7
  | 'f' => some 12
  | 'n' => some 10
  | 'r' => some 13
  | 't' => some 9
  | 'v' => some 11
  | _ => none

/-- The class of an escape with a letter. -/
def classItem? (narrow : Bool) (c : Char) : Option CharItem :=
  match c with
  | 'd' => some (.kind .digit narrow false)
  | 'D' => some (.kind .digit narrow true)
  | 's' => some (.kind .blank narrow false)
  | 'S' => some (.kind .blank narrow true)
  | 'w' => some (.kind .word narrow false)
  | 'W' => some (.kind .word narrow true)
  | _ => none

/-- The edge of an escape with a letter. -/
def edge? (narrow : Bool) (c : Char) : Option Anchor :=
  match c with
  | 'A' => some .textStart
  | 'Z' => some .textEnd
  | 'b' => some (.wordEdge narrow)
  | 'B' => some (.notWordEdge narrow)
  | _ => none

/-- A code point that an escape with `x`, `u` or `U` spells. -/
def spelledCode (c : Char) (rest : List Token) : Except SpellingError (Option (Nat × List Token)) :=
  let digits := match c with
    | 'x' => 2
    | 'u' => 4
    | 'U' => 8
    | _ => 0
  if digits == 0 then .ok none
  else match hexCode? digits 0 rest with
    | some (n, rest) => if n < 0x110000 then .ok (some (n, rest)) else .error .badEscape
    | none => .error .badEscape

/-- The member of a set that an escape spells. -/
def setEscape (narrow : Bool) (c : Char) (rest : List Token) :
    Except SpellingError (CharItem × List Token) := do
  if c == 'b' then return (.one (Char.ofNat 8), rest)
  if let some n := control? c then return (codeItem n, rest)
  if let some item := classItem? narrow c then return (item, rest)
  if let some (n, rest) ← spelledCode c rest then return (codeItem n, rest)
  if isOctal c then
    let (n, rest) := octalCode 2 (c.toNat - 48) rest
    if n > 255 then throw .badEscape
    return (codeItem n, rest)
  if c.isAlphanum then throw .badEscape
  return (.one c, rest)

/-- The member of a set that a token and those after it spell. -/
def setMember (narrow : Bool) : Token → List Token → Except SpellingError (CharItem × List Token)
  | .plain c, rest => .ok (.one c, rest)
  | .escaped c, rest => setEscape narrow c rest
  | .dangling, _ => .error .trailingBackslash

/-- The code point of a member that is one. -/
def CharItem.code? : CharItem → Option Nat
  | .one c => some c.toNat
  | .range lo hi => if lo == hi then some lo else none
  | .kind _ _ _ => none

/-- Reads the members of a set up to the closing bracket, which is a member if it comes first. -/
def setItems (narrow : Bool) :
    Nat → (items : List CharItem) → List Token → Except SpellingError (List CharItem × List Token)
  | 0, _, _ => .error .unterminatedSet
  | fuel + 1, items, input => do
    match input with
    | [] => throw .unterminatedSet
    | token :: rest =>
      if token == .plain ']' && !items.isEmpty then return (items.reverse, rest)
      let (item, rest) ← setMember narrow token rest
      match rest with
      | .plain '-' :: .plain ']' :: rest => return ((.one '-' :: item :: items).reverse, rest)
      | .plain '-' :: token :: rest =>
        let (item', rest) ← setMember narrow token rest
        match item.code?, item'.code? with
        | some lo, some hi =>
          if hi < lo then throw .badRange
          setItems narrow fuel (.range lo hi :: items) rest
        | _, _ => throw .badRange
      | [.plain '-'] => throw .unterminatedSet
      | rest => setItems narrow fuel (item :: items) rest

/-- Reads a set after its opening bracket. -/
def readSet (flags : Flags) (input : List Token) : Except SpellingError (CharSet × List Token) := do
  let (negated, input) := match input with
    | .plain '^' :: rest => (true, rest)
    | _ => (false, input)
  let (items, rest) ← setItems flags.narrow (input.length + 1) [] input
  return (⟨items.eraseDups, negated, flags.letters⟩, rest)

/-- Decimal digits at the start of the input. -/
def digitsOf : List Token → List Char × List Token
  | .plain c :: rest =>
    if c.isDigit then
      let (digits, rest) := digitsOf rest
      (c :: digits, rest)
    else ([], .plain c :: rest)
  | rest => ([], rest)

/-- The count that digits spell, which has to fit in 32 bits and may not be the greatest one. -/
def countOf (digits : List Char) : Except SpellingError Nat :=
  match Text.overlong? digits with
  | some count => .error (.countTooLong count)
  | none =>
    let n := Text.decimal digits
    if 4294967295 ≤ n then .error .countTooLarge else .ok n

/-- The digits of the count of a repetition, after its opening brace. There are none if the braces
hold anything else. -/
def countDigits? (input : List Token) : Option (List Char × List Char × List Token) :=
  match input with
  | .plain '\x7d' :: _ => none
  | _ =>
    let (least, rest) := digitsOf input
    let (most, rest) := match rest with
      | .plain ',' :: rest => digitsOf rest
      | _ => (least, rest)
    match rest with
    | .plain '\x7d' :: rest => some (least, most, rest)
    | _ => none

/-- The least and the greatest number of rounds that a count asks for. -/
def countBounds (least most : List Char) : Except SpellingError (Nat × Option Nat) := do
  let low ← countOf least
  if most.isEmpty then return (low, none)
  let high ← countOf most
  if high < low then throw .leastAboveMost
  return (low, some high)

/-- The name before `stop`, token by token. -/
def nameUntil (stop : Char) : List Token → Option (List Token × List Token)
  | [] => none
  | token :: rest =>
    if token == .plain stop then some ([], rest)
    else (nameUntil stop rest).map fun (name, rest) => (token :: name, rest)

/-- The characters of plain tokens, if there are no others. -/
def plainChars? (tokens : List Token) : Option (List Char) :=
  tokens.mapM fun
    | .plain c => some c
    | _ => none

/-- Reads the characters of a name up to `stop`. -/
def readNameChars (stop : Char) (input : List Token) :
    Except SpellingError (List Char × List Token) := do
  let some (name, rest) := nameUntil stop input | throw .badGroupName
  let some chars := plainChars? name | throw .badGroupName
  return (chars, rest)

/-- Reads a name of a group up to `stop`. -/
def readName (stop : Char) (input : List Token) : Except SpellingError (String × List Token) := do
  let (chars, rest) ← readNameChars stop input
  if Text.isName chars then return (String.ofList chars, rest)
  throw .badGroupName

/-- Inside a look behind a group has to be closed, and not part of the same look. -/
def Scope.checkLook (scope : Scope) (i : Nat) : Except SpellingError Unit := do
  if scope.lookFloor.isSome && (scope.closed.lookup i).isNone then throw .openGroup
  if scope.lookFloor.any (· < i) then throw .groupOfSameLook

/-- A reference to a group. The group has to be closed, and not part of the same look behind. -/
def Scope.reference (scope : Scope) (i : Nat) : Except SpellingError Expr := do
  if scope.opened < i || i == 0 then throw .unknownGroup
  if (scope.closed.lookup i).isNone then throw .openGroup
  scope.checkLook i
  return .again i scope.flags.letters

/-- The group that a condition asks for, by its name or by its number. A number may be that of a
group that comes later. -/
def Scope.condition (scope : Scope) (name : List Char) : Except SpellingError (Nat × Scope) := do
  if Text.isName name then
    let some i := scope.names.lookup (String.ofList name) | throw .unknownGroup
    scope.checkLook i
    return (i, scope)
  let some i := Text.looseNumber? name | throw .badGroupName
  if i == 0 then throw .badGroupName
  scope.checkLook i
  return (i, { scope with asked := max scope.asked i })

/-- The flags that a letter turns on or off, if it is one. -/
def Flags.set? (f : Flags) (on : Bool) (c : Char) : Option Flags :=
  match c with
  | 'i' => some { f with ignoreCase := on }
  | 'm' => some { f with lines := on }
  | 's' => some { f with dotAll := on }
  | 'x' => some { f with spaced := on }
  | 'a' => some { f with narrow := on }
  | 'u' => some { f with wide := on }
  | 't' => some { f with once := on }
  | _ => none

/-- The letters of flags at the start of the input. -/
def flagLetters : List Token → List Char × List Token
  | .plain c :: rest =>
    if ("imsxaut".toList).contains c then
      let (letters, rest) := flagLetters rest
      (c :: letters, rest)
    else ([], .plain c :: rest)
  | rest => ([], rest)

/-- Turns flags on or off, one letter after the other. -/
def Flags.setAll? (on : Bool) (letters : List Char) (f : Flags) : Option Flags :=
  letters.foldlM (fun f c => f.set? on c) f

/-- What flags in parentheses ask for. -/
inductive FlagUse where
  /-- Flags for the whole pattern. -/
  | everywhere (flags : Flags)
  /-- Flags for the group that they open. -/
  | here (flags : Flags)

/-- Flags for a group: the letters `a` and `u` push each other out. -/
def Flags.inGroup (f : Flags) (on : List Char) : Flags :=
  if on.contains 'a' then { f with wide := false }
  else if on.contains 'u' then { f with narrow := false }
  else f

/-- Reads flags after `(?`, up to the closing parenthesis or the colon. -/
def readFlags (flags : Flags) (input : List Token) :
    Except SpellingError (FlagUse × List Token) := do
  let (on, rest) := flagLetters input
  if on.contains 'a' && on.contains 'u' then throw .badFlags
  let some added := flags.setAll? true on | throw .badFlags
  match rest with
  | .plain ')' :: rest => if on.isEmpty then throw .badFlags else return (.everywhere added, rest)
  | .plain ':' :: rest =>
    if on.contains 't' then throw .badFlags else return (.here (added.inGroup on), rest)
  | .plain '-' :: rest =>
    let (off, rest) := flagLetters rest
    if off.isEmpty || off.any fun c => c == 'a' || c == 'u' || c == 't' || on.contains c then
      throw .badFlags
    if on.contains 't' then throw .badFlags
    let some left := (added.inGroup on).setAll? false off | throw .badFlags
    match rest with
    | .plain ':' :: rest => return (.here left, rest)
    | _ => throw .badFlags
  | _ => throw .badFlags

/-- Passes over a comment up to its closing parenthesis. -/
def skipComment? : List Token → Option (List Token)
  | [] => none
  | token :: rest => if token == .plain ')' then some rest else skipComment? rest

/-- Passes over a comment up to the end of its line, or to a backslash with nothing after it. -/
def skipLine : List Token → List Token
  | [] => []
  | [.dangling] => [.dangling]
  | token :: rest => if token == .plain '\n' then rest else skipLine rest

/-- A part of a sequence. It is `simple` if what it takes does not depend on what follows: a
character, an anchor or a reference, outside of groups with flags of their own. -/
structure Part where
  expr : Expr
  simple : Bool
  deriving DecidableEq, Repr

/-- The pattern of the parts of a sequence. -/
def Part.sequence (parts : List Part) : Expr := .concat (parts.map (·.expr))

/-- The simple part that all of several sequences begin with. -/
def sharedPart? : List (List Part) → Option Part
  | [] => none
  | alternatives@(first :: _) => match first with
    | [] => none
    | part :: _ =>
      if part.simple && alternatives.all (fun parts => parts.head? == some part) then some part
      else none

/-- The simple parts that all of several sequences begin with, and what is left of them. There are
no more of these than parts in the first sequence. -/
def factored : Nat → List (List Part) → List Part × List (List Part)
  | 0, alternatives => ([], alternatives)
  | fuel + 1, alternatives => match sharedPart? alternatives with
    | none => ([], alternatives)
    | some part =>
      let (shared, rest) := factored fuel (alternatives.map List.tail)
      (part :: shared, rest)

/-- The members of a sequence of one set that is simple and not negated. -/
def setOf? : List Part → Option CharSet
  | [⟨.one set, true⟩] => if set.negated then none else some set
  | _ => none

/-- One set for all of several sequences, if each is one. -/
def mergedSet? (alternatives : List (List Part)) : Option CharSet :=
  match alternatives.mapM setOf? with
  | some (set :: sets) => some { set with items := ((set :: sets).flatMap (·.items)).eraseDups }
  | _ => none

/-- The sequence that stands for several alternatives. -/
def alternation : List (List Part) → List Part
  | [] => []
  | [parts] => parts
  | alternatives@(first :: _) =>
    let (shared, rest) := factored first.length alternatives
    shared ++ match mergedSet? rest with
      | some set => [⟨.one set, true⟩]
      | none => match rest.map Part.sequence with
        | [] => []
        | p :: ps => [⟨.choice p ps, false⟩]

/-- What can be repeated: anything but an anchor or a repetition. -/
inductive ItemKind where
  | atom
  | anchor
  | repeated
  deriving DecidableEq, Repr

/-- An element of a sequence as it is spelled. A group without a number and without flags of its
own has as many parts as its content. -/
structure Item where
  parts : List Part
  kind : ItemKind := .atom
  deriving Repr

/-- An element of one simple part. -/
def Item.simple (expr : Expr) (kind : ItemKind) : Item := ⟨[⟨expr, true⟩], kind⟩

/-- An element of one part that is not simple. -/
def Item.compound (expr : Expr) (kind : ItemKind) : Item := ⟨[⟨expr, false⟩], kind⟩

/-- The parts of the elements of a sequence, the last one first. -/
def Item.allParts (items : List Item) : List Part := items.reverse.flatMap (·.parts)

/-- Repeats the last element. -/
def repeatLast (least : Nat) (most : Option Nat) (items : List Item) (rest : List Token) :
    Except SpellingError (List Item × List Token) := do
  match items with
  | [] => throw .nothingToRepeat
  | item :: before =>
    let repeated (greedy : Bool) : Expr := .rep (Part.sequence item.parts) least most greedy
    match item.kind with
    | .anchor => throw .nothingToRepeat
    | .repeated => throw .repeatedTwice
    | .atom =>
      match rest with
      | .plain '?' :: rest => return (.compound (repeated false) .repeated :: before, rest)
      | .plain '+' :: rest =>
        return (.compound (.atomic (repeated true)) .repeated :: before, rest)
      | rest => return (.compound (repeated true) .repeated :: before, rest)

/-- The scope after a repetition. -/
def Scope.noteRepeat (scope : Scope) : Scope :=
  if scope.flags.once then { scope with late := scope.late <|> some .repeatForbidden } else scope

/-- The element that an escape outside of sets spells. -/
def readEscape (scope : Scope) (c : Char) (rest : List Token) :
    Except SpellingError (Item × List Token) := do
  let code (n : Nat) (rest : List Token) : Item × List Token :=
    (.simple (.one ⟨[codeItem n], false, scope.flags.letters⟩) .atom, rest)
  if let some a := edge? scope.flags.narrow c then return (.simple (.anchor a) .anchor, rest)
  if let some item := classItem? scope.flags.narrow c then
    return (.simple (.one ⟨[item], false, scope.flags.letters⟩) .atom, rest)
  if let some n := control? c then return code n rest
  if let some (n, rest) ← spelledCode c rest then return code n rest
  if c == '0' then
    let (n, rest) := octalCode 2 0 rest
    return code n rest
  if c.isDigit then
    match rest with
    | .plain d :: .plain e :: rest' =>
      if isOctal c && isOctal d && isOctal e then
        let n := 64 * (c.toNat - 48) + 8 * (d.toNat - 48) + (e.toNat - 48)
        if n > 255 then throw .badEscape
        return code n rest'
    | _ => pure ()
    match rest with
    | .plain d :: rest' =>
      if d.isDigit then return (.simple (← scope.reference (Text.decimal [c, d])) .atom, rest')
      else return (.simple (← scope.reference (Text.decimal [c])) .atom, rest)
    | _ => return (.simple (← scope.reference (Text.decimal [c])) .atom, rest)
  if c.isAlpha then throw .badEscape
  return (.simple (.one ⟨[.one c], false, scope.flags.letters⟩) .atom, rest)

/-- The element that a character without a meaning of its own, a dot, `^` or `$` spells. -/
def plainItem (flags : Flags) (c : Char) : Item :=
  match c with
  | '.' => .simple (.one (.butItems (if flags.dotAll then [] else [.one '\n']))) .atom
  | '^' => .simple (.anchor (if flags.lines then .lineStart else .textStart)) .anchor
  | '$' => .simple (.anchor (if flags.lines then .lineEnd else .lastLineEnd)) .anchor
  | _ => .simple (.one ⟨[.one c], false, flags.letters⟩) .atom

/-- How a group is closed. -/
inductive GroupUse where
  /-- A group that keeps its text. -/
  | numbered (i : Nat)
  /-- A group without a number. -/
  | bare
  /-- A group without a number, whose flags end with it. -/
  | flagged
  /-- A group with one content if another group has matched, and perhaps one if it has not. -/
  | conditional (i : Nat)
  | atomic
  | ahead (positive : Bool)
  | behind (positive : Bool)

/-- What an opening parenthesis and the tokens after it begin. -/
inductive Opening where
  /-- A complete element, or nothing. -/
  | done (item : Option Item)
  /-- A group that the tokens after this fill. -/
  | opens (use : GroupUse)

/-- Opens a numbered group. -/
def Scope.openGroup (scope : Scope) (name : Option String) :
    Except SpellingError (Nat × Scope) := do
  let i := scope.opened + 1
  match name with
  | none => return (i, { scope with opened := i })
  | some name =>
    if (scope.names.lookup name).isSome then throw .repeatedGroupName
    return (i, { scope with opened := i, names := scope.names ++ [(name, i)] })

/-- Reads what follows an opening parenthesis. `atStart` tells whether flags for the whole
pattern may stand here. -/
def readOpening (scope : Scope) (atStart : Bool) (input : List Token) :
    Except SpellingError (Opening × Scope × List Token) := do
  match input with
  | .plain '?' :: .plain 'P' :: .plain '<' :: rest =>
    let (name, rest) ← readName '>' rest
    let (i, scope) ← scope.openGroup (some name)
    return (.opens (.numbered i), scope, rest)
  | .plain '?' :: .plain 'P' :: .plain '=' :: rest =>
    let (name, rest) ← readName ')' rest
    let some i := scope.names.lookup name | throw .unknownGroup
    return (.done (some (.simple (← scope.reference i) .atom)), scope, rest)
  | .plain '?' :: .plain '(' :: rest =>
    let (name, rest) ← readNameChars ')' rest
    let (i, scope) ← scope.condition name
    return (.opens (.conditional i), scope, rest)
  | .plain '?' :: .plain ':' :: rest => return (.opens .bare, scope, rest)
  | .plain '?' :: .plain '#' :: rest =>
    let some rest := skipComment? rest | throw .unclosedComment
    return (.done none, scope, rest)
  | .plain '?' :: .plain '=' :: rest => return (.opens (.ahead true), scope, rest)
  | .plain '?' :: .plain '!' :: rest => return (.opens (.ahead false), scope, rest)
  | .plain '?' :: .plain '<' :: .plain '=' :: rest =>
    return (.opens (.behind true), scope, rest)
  | .plain '?' :: .plain '<' :: .plain '!' :: rest =>
    return (.opens (.behind false), scope, rest)
  | .plain '?' :: .plain '>' :: rest => return (.opens .atomic, scope, rest)
  | .plain '?' :: .plain c :: rest =>
    if !("imsxaut-".toList).contains c then throw .unknownExtension
    match ← readFlags scope.flags (.plain c :: rest) with
    | (.everywhere flags, rest) =>
      if atStart then return (.done none, { scope with flags }, rest) else throw .lateFlags
    | (.here flags, rest) => return (.opens .flagged, { scope with flags }, rest)
  | .plain '?' :: _ => throw .unknownExtension
  | rest =>
    let (i, scope) ← scope.openGroup none
    return (.opens (.numbered i), scope, rest)

/-- Closes a group around some parts, and around those for a condition that does not hold. `outer`
is the scope in front of the group and `inner` the one at its end. -/
def closeGroup (outer inner : Scope) (parts others : List Part) (use : GroupUse) : Item × Scope :=
  let p := Part.sequence parts
  match use with
  | .numbered i =>
    (.compound (.group i p) .atom,
      { inner with closed := (i, p.width inner.closed) :: inner.closed })
  | .bare => (⟨parts, .atom⟩, inner)
  | .flagged => (.compound p .atom, { inner with flags := outer.flags })
  | .conditional i => (.compound (.ifGroup i p (Part.sequence others)) .atom, inner)
  | .atomic => (.compound (.atomic p) .atom, inner)
  | .ahead positive => (.compound (.look 0 positive p) .atom, inner)
  | .behind positive =>
    let width := p.width inner.closed
    (.compound (.look width.least positive p) .atom,
      { inner with
        lookFloor := outer.lookFloor
        late := inner.late <|> if width.steps then none else some .lookBehindOfVaryingWidth })

/-- The scope inside a group. -/
def GroupUse.enter (use : GroupUse) (scope : Scope) : Scope :=
  match use with
  | .behind _ => { scope with lookFloor := some (scope.lookFloor.getD scope.opened) }
  | _ => scope

mutual

/-- Reads alternatives up to a closing parenthesis or the end. `top` tells whether this is the
whole pattern. -/
def readChoice (fuel : Nat) (top first : Bool) (scope : Scope) (input : List Token) :
    Except SpellingError (List (List Part) × Scope × List Token) :=
  match fuel with
  | 0 => .error .unclosedGroup
  | fuel + 1 => do
    let (parts, scope, rest) ← readSequence fuel (top && first) scope [] input
    match rest with
    | .plain '|' :: rest =>
      let (others, scope, rest) ← readChoice fuel top false scope rest
      return (parts :: others, scope, rest)
    | rest => return ([parts], scope, rest)

/-- Reads the content of a group up to its closing parenthesis: a choice or, for a condition, a
sequence and perhaps another one. -/
def readContent (fuel : Nat) (use : GroupUse) (scope : Scope) (input : List Token) :
    Except SpellingError (List Part × List Part × Scope × List Token) :=
  match fuel with
  | 0 => .error .unclosedGroup
  | fuel + 1 => do
    match use with
    | .conditional _ =>
      let (parts, scope, rest) ← readSequence fuel false scope [] input
      match rest with
      | .plain '|' :: rest =>
        let (others, scope, rest) ← readSequence fuel false scope [] rest
        return (parts, others, scope, rest)
      | rest => return (parts, [], scope, rest)
    | _ =>
      let (choice, scope, rest) ← readChoice fuel false true scope input
      return (alternation choice, [], scope, rest)

/-- Reads elements up to a bar, a closing parenthesis or the end. -/
def readSequence (fuel : Nat) (mayStart : Bool) (scope : Scope) (items : List Item)
    (input : List Token) : Except SpellingError (List Part × Scope × List Token) :=
  match fuel with
  | 0 => .error .unclosedGroup
  | fuel + 1 => do
    match input with
    | [] => return (Item.allParts items, scope, [])
    | .dangling :: _ => throw .trailingBackslash
    | .escaped c :: rest =>
      let (item, rest) ← readEscape scope c rest
      readSequence fuel mayStart scope (item :: items) rest
    | .plain c :: rest =>
      if c == '|' || c == ')' then return (Item.allParts items, scope, input)
      if scope.flags.spaced && Text.isNarrowBlank c then
        readSequence fuel mayStart scope items rest
      else if scope.flags.spaced && c == '#' then
        readSequence fuel mayStart scope items (skipLine rest)
      else match c with
        | '[' =>
          let (set, rest) ← readSet scope.flags rest
          readSequence fuel mayStart scope (.simple (.one set) .atom :: items) rest
        | '?' =>
          let (items, rest) ← repeatLast 0 (some 1) items rest
          readSequence fuel mayStart scope.noteRepeat items rest
        | '*' =>
          let (items, rest) ← repeatLast 0 none items rest
          readSequence fuel mayStart scope.noteRepeat items rest
        | '+' =>
          let (items, rest) ← repeatLast 1 none items rest
          readSequence fuel mayStart scope.noteRepeat items rest
        | '\x7b' =>
          match countDigits? rest with
          | none => readSequence fuel mayStart scope (plainItem scope.flags c :: items) rest
          | some (least, most, rest) =>
            if rest == [.dangling] then throw .trailingBackslash
            let (least, most) ← countBounds least most
            let (items, rest) ← repeatLast least most items rest
            readSequence fuel mayStart scope.noteRepeat items rest
        | '(' =>
          let (opening, inner, rest) ← readOpening scope (mayStart && items.isEmpty) rest
          match opening with
          | .done item => readSequence fuel mayStart inner (item.toList ++ items) rest
          | .opens use =>
            let (parts, others, inner, rest) ← readContent fuel use (use.enter inner) rest
            match rest with
            | .plain ')' :: rest =>
              let (item, scope) := closeGroup scope inner parts others use
              readSequence fuel mayStart scope (item :: items) rest
            | _ => throw .unclosedGroup
        | _ => readSequence fuel mayStart scope (plainItem scope.flags c :: items) rest

end

end RailsUpgrade.Pattern

namespace RailsUpgrade

/-- A pattern with its spelling, the number of its groups and their names. -/
structure Pattern where
  source : String
  expr : Pattern.Expr
  groups : Nat
  names : List (String × Nat)
  deriving Repr

/-- Reads a pattern from the characters of its spelling. -/
def Pattern.compileChars (flags : Pattern.Flags) (source : String) (chars : List Char) :
    Except Pattern.SpellingError Pattern := do
  let input := Pattern.tokens chars
  let (choice, scope, rest) ← Pattern.readChoice (3 * input.length + 2) true true { flags } input
  if scope.flags.narrow && scope.flags.wide then throw .narrowAndWide
  if !rest.isEmpty then throw .unopenedGroup
  if scope.opened < scope.asked then throw .unknownGroup
  match scope.late with
  | some error => throw error
  | none =>
    let expr := Pattern.Part.sequence (Pattern.alternation choice)
    return ⟨source, expr, scope.opened, scope.names⟩

/-- Reads a pattern from its spelling. -/
def Pattern.compile (flags : Pattern.Flags) (source : String) :
    Except Pattern.SpellingError Pattern :=
  Pattern.compileChars flags source source.toList

/-- To check a spelling it is enough to check its characters. -/
theorem Pattern.compile_isOk {flags : Pattern.Flags} {source : String} {chars : List Char}
    (same : source.toList = chars) (valid : (Pattern.compileChars flags source chars).isOk = true) :
    (Pattern.compile flags source).isOk = true := by
  rw [Pattern.compile, same]
  exact valid

/-- The flags of every pattern of a rule: `^` and `$` are the ends of each line. -/
def Pattern.Flags.byLine : Pattern.Flags := { lines := true }

/-- A fixed pattern, whose spelling is checked where it is written down. -/
def Pattern.fixed (flags : Pattern.Flags) (source : String)
    (valid : (Pattern.compile flags source).isOk = true := by
      exact Pattern.compile_isOk String.toList_ofList (by decide +kernel)) : Pattern :=
  match e : Pattern.compile flags source with
  | .ok p => p
  | .error _ => absurd valid (by rw [e]; exact Bool.false_ne_true)

/-- To read a fixed pattern it is enough to read its characters. -/
theorem Pattern.expr_fixed {flags : Pattern.Flags} {source : String}
    {valid : (Pattern.compile flags source).isOk = true} {chars : List Char} {e : Pattern.Expr}
    (same : source.toList = chars)
    (read : (Pattern.compileChars flags source chars).toOption.map Pattern.expr = some e) :
    (Pattern.fixed flags source valid).expr = e := by
  rw [← same] at read
  change (Pattern.compile flags source).toOption.map Pattern.expr = some e at read
  unfold Pattern.fixed
  split
  · rename_i p hp
    rw [hp] at read
    exact Option.some.inj read
  · rename_i error hp
    rw [hp] at read
    cases read

/-- A pattern keeps its spelling. -/
theorem Pattern.source_of_compile {flags : Pattern.Flags} {source : String} {p : Pattern}
    (h : Pattern.compile flags source = .ok p) : p.source = source := by
  simp only [Pattern.compile, Pattern.compileChars] at h
  cases hchoice : Pattern.readChoice (3 * (Pattern.tokens source.toList).length + 2) true true
      { flags } (Pattern.tokens source.toList) with
  | error e => simp [hchoice, bind, Except.bind] at h
  | ok r =>
    simp only [hchoice, bind, Except.bind, pure, Except.pure] at h
    repeat' split at h
    all_goals first
      | cases h
        rfl
      | cases h

/-- The spelling of a fixed pattern is known without reading it. -/
theorem Pattern.source_fixed {flags : Pattern.Flags} {source : String}
    {valid : (Pattern.compile flags source).isOk = true} :
    (Pattern.fixed flags source valid).source = source := by
  unfold Pattern.fixed
  split
  · exact Pattern.source_of_compile ‹_›
  · rename_i error hp
    rw [hp] at valid
    exact absurd valid Bool.false_ne_true

/-- Whether a pattern matches somewhere in a text. -/
def Pattern.found (p : Pattern) (text : List Char) : Bool := p.expr.found text

end RailsUpgrade
