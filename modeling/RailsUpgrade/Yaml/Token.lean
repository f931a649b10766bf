import RailsUpgrade.Yaml.Block
import RailsUpgrade.Yaml.Plain
import RailsUpgrade.Yaml.Quoted

/-!
# `RailsUpgrade.Yaml.Token`: a document as signs and scalars

`Token.scan` cuts a document into tokens. Indentation becomes tokens of its own: `listStart` and
`mapStart` where lines start to lie further in, `blockEnd` where they end.

Whether a scalar is the key of an entry is seen only at the colon after it. So a place where a key
may start is kept as a `PendingKey`, and the tokens for the key are put there once its colon is
found. A pending key is given up at the end of its line or after 1024 characters.

The last token is `finish`, or `fault` if the document cannot be cut further. Tokens after a pending
key are not certain yet, so they are not in front of a fault.
-/

set_option autoImplicit false

namespace RailsUpgrade.Yaml

/-- A sign or a scalar of a document. -/
inductive Token where
  | versionDirective (major : Nat)
  | handleDirective (handle lead : List Char)
  | otherDirective
  | documentStart
  | documentEnd
  | flowListStart
  | flowListEnd
  | flowMapStart
  | flowMapEnd
  | comma
  | listStart
  | mapStart
  | blockEnd
  | entry
  | key
  | value
  | anchor (name : List Char)
  | reference (name : List Char)
  | tag (handle : Option (List Char)) (suffix : List Char)
  /-- A scalar. If it is `halved`, it holds a half of a surrogate pair, for which U+FFFD stands. -/
  | scalar (text : List Char) (plain halved : Bool)
  | finish
  | fault (fault : Fault)
  deriving DecidableEq, Repr

/-- A place where a key may start. -/
structure PendingKey where
  /-- How many brackets are open there. -/
  depth : Nat
  /-- How many tokens are in front of it. -/
  number : Nat
  /-- Whether a document in which it is no key is malformed. -/
  required : Bool
  index : Nat
  line : Nat
  column : Nat
  deriving DecidableEq, Repr

/-- How many characters a key and the gap after it may have. -/
def keyLimit : Nat := 1024

/-- Whether a key can no longer have its colon at a spot. -/
def PendingKey.isStale (k : PendingKey) (s : Spot) : Bool :=
  k.line != s.line || keyLimit < s.index - k.index

/-- Whether a number is a half of a surrogate pair. -/
def isHalf (n : Nat) : Bool := 0xD800 ≤ n && n < 0xE000

/-- The token of a scalar that is read as code points. -/
def Token.ofCodes (codes : List Nat) : Token :=
  .scalar (codes.map fun n => if isHalf n then Char.ofNat 0xFFFD else Char.ofNat n) false
    (codes.any isHalf)

/-! ## Names, handles and tags -/

namespace Spot

/-- A name, which may not be empty. -/
def name (s : Spot) : Except Fault (List Char × Spot) :=
  let (run, s) := s.span isNameChar
  if run.isEmpty then .error .malformed else .ok (run, s)

/-- The name of an anchor or a reference, after its sign. -/
def anchorName (s : Spot) : Except Fault (List Char × Spot) := do
  let (run, s) ← s.name
  let c := s.peek
  if isGap c || "?:,]\x7d%@".toList.contains c || c.toNat == 96 then return (run, s)
  else throw .malformed

/-- A handle: an exclamation mark, or two with a name between them that may be empty. -/
def handle (s : Spot) : Except Fault (List Char × Spot) :=
  if s.peek != '!' then .error .malformed
  else if s.peekAt 1 == ' ' then .ok (['!'], s.step)
  else
    let (run, s) := s.step.span isNameChar
    if s.peek == '!' then .ok ('!' :: run ++ ['!'], s.step) else .error .malformed

/-- Whether a character may stand in a tag. -/
def isTagChar (c : Char) : Bool := c.isAlphanum || "-;/?:@&=+$,_.!~*'()[]".toList.contains c

/-- The bytes of the escapes that are next. -/
def escapedBytes : Nat → Spot → Except Fault (List UInt8 × Spot)
  | 0, s => .ok ([], s)
  | fuel + 1, s =>
    if s.peek == '%' then do
      let (n, s) ← s.step.hex 2 0
      let (more, s) ← escapedBytes fuel s
      return (UInt8.ofNat n :: more, s)
    else .ok ([], s)

/-- The characters of a tag. Escapes spell characters in UTF-8. -/
def tagChars : Nat → Spot → Except Fault (List Char × Spot)
  | 0, s => .ok ([], s)
  | fuel + 1, s => do
    let (run, s) := s.span isTagChar
    if s.peek == '%' then
      let (bytes, s) ← s.escapedBytes (s.rest.length + 1)
      match String.fromUTF8? ⟨bytes.toArray⟩ with
      | none => throw .malformed
      | some escaped =>
        let (more, s) ← tagChars fuel s
        return (run ++ escaped.toList ++ more, s)
    else return (run, s)

/-- The suffix of a tag, which may not be empty. -/
def tagSuffix (s : Spot) : Except Fault (List Char × Spot) :=
  if isTagChar s.peek || s.peek == '%' then s.tagChars (s.rest.length + 1) else .error .malformed

/-- A tag, whose exclamation mark is next. -/
def tag (s : Spot) : Except Fault (Token × Spot) := do
  let next := s.peekAt 1
  let (token, s) ←
    if next == '<' then do
      let (suffix, s) ← (s.advance 2).tagSuffix
      if s.peek == '>' then pure (Token.tag none suffix, s.step) else throw .malformed
    else if isGap next then pure (Token.tag none ['!'], s.step)
    else if ((s.rest.drop 1).takeWhile fun c => !endsWord c).contains '!' then do
      let (handle, s) ← s.handle
      let (suffix, s) ← s.tagSuffix
      pure (Token.tag (some handle) suffix, s)
    else do
      let (suffix, s) ← s.step.tagSuffix
      pure (Token.tag (some ['!']) suffix, s)
  if endsWord s.peek then return (token, s) else throw .malformed

/-- A number of a version. -/
def versionNumber (s : Spot) : Except Fault (Nat × Spot) :=
  let (digits, s) := s.span Char.isDigit
  if digits.isEmpty then .error .malformed
  else match Text.overlong? digits with
    | some number => .error (.number (.overlong number))
    | none => .ok (Text.decimal digits, s)

/-- A directive, whose percent sign is next, with the rest of its line. -/
def directive (s : Spot) : Except Fault (Token × Spot) := do
  let (name, s) ← s.step.name
  if !endsWord s.peek then throw .malformed
  let (token, s) ←
    if name == "YAML".toList then do
      let (major, s) ← s.skipSpaces.versionNumber
      if s.peek != '.' then throw .malformed
      let (_, s) ← s.step.versionNumber
      pure (Token.versionDirective major, s)
    else if name == "TAG".toList then do
      let (handle, s) ← s.skipSpaces.handle
      if s.peek != ' ' then throw .malformed
      let (lead, s) ← s.skipSpaces.tagSuffix
      pure (Token.handleDirective handle lead, s)
    else pure (Token.otherDirective, s.skipWhile fun c => !endsLine c)
  if !endsWord s.peek then throw .malformed
  return (token, ← s.skipLine)

end Spot

/-! ## Scanning -/

/-- How far a document has been cut into tokens. -/
structure Scan where
  spot : Spot
  /-- How many brackets are open. -/
  depth : Nat := 0
  /-- The columns of the collections that are open, innermost first. -/
  margins : List Nat := []
  /-- Whether a key may start here. -/
  mayKey : Bool := true
  pending : List PendingKey := []
  /-- The tokens so far, newest first. -/
  tokens : List Token := []

namespace Scan

/-- The least column of what belongs to the innermost open collection. -/
def least (s : Scan) : Nat :=
  match s.margins with
  | [] => 0
  | column :: _ => column + 1

/-- Whether brackets are open. -/
def inFlow (s : Scan) : Bool := 0 < s.depth

/-- Adds a token and passes on to a spot. -/
def add (token : Token) (spot : Spot) (s : Scan) : Scan :=
  { s with spot, tokens := token :: s.tokens }

/-- Passes over spaces, comments and line breaks. After a line break a key may start, but not
between brackets. -/
def skipGap : Nat → Scan → Scan
  | 0, s => s
  | fuel + 1, s =>
    let spot := s.spot.skipSpaces.skipComment
    match spot.lineBreak? with
    | none => { s with spot }
    | some (_, spot) => skipGap fuel { s with spot, mayKey := s.mayKey || !s.inFlow }

/-- Passes to the next token. A byte order mark may start a document. -/
def toToken (s : Scan) : Scan :=
  let spot :=
    if s.spot.index == 0 && s.spot.peek.toNat == 0xFEFF then s.spot.step else s.spot
  skipGap (spot.rest.length + 1) { s with spot }

/-- Gives up the keys that can no longer have their colon. -/
def dropStale (s : Scan) : Except Fault Scan :=
  if s.pending.any fun k => k.isStale s.spot && k.required then .error .malformed
  else .ok { s with pending := s.pending.filter fun k => !k.isStale s.spot }

/-- Gives up the key that may have started between the current brackets. -/
def dropKey (s : Scan) : Except Fault Scan :=
  if s.pending.any fun k => k.depth == s.depth && k.required then .error .malformed
  else .ok { s with pending := s.pending.filter fun k => k.depth != s.depth }

/-- Notes that a key may start here. It has to be one at the margin of a collection. -/
def noteKey (s : Scan) : Except Fault Scan :=
  if !s.mayKey then .ok s
  else do
    let s ← s.dropKey
    let spot := s.spot
    let key : PendingKey :=
      ⟨s.depth, s.tokens.length, !s.inFlow && s.margins.head? == some spot.column, spot.index,
        spot.line, spot.column⟩
    return { s with pending := key :: s.pending }

/-- Closes the collections that lie further in than `least`. -/
def close (least : Nat) (s : Scan) : Scan :=
  if s.inFlow then s
  else
    let closed := s.margins.takeWhile (least ≤ ·)
    { s with
      margins := s.margins.drop closed.length
      tokens := closed.map (fun _ => Token.blockEnd) ++ s.tokens }

/-- Opens a collection at a column, unless one is open there, with a token `back` tokens ago. -/
def openAt (column back : Nat) (token : Token) (s : Scan) : Scan :=
  if s.inFlow || column < s.least then s
  else
    { s with
      margins := column :: s.margins
      tokens := s.tokens.take back ++ token :: s.tokens.drop back }

/-- A sign of three characters between documents. -/
def mark (token : Token) (s : Scan) : Except Fault Scan := do
  let s ← (s.close 0).dropKey
  return add token (s.spot.advance 3) { s with mayKey := false }

/-- An opening bracket. -/
def flowStart (token : Token) (s : Scan) : Except Fault Scan := do
  let s ← s.noteKey
  return add token s.spot.step { s with depth := s.depth + 1, mayKey := true }

/-- A closing bracket. One that was not opened is malformed. -/
def flowEnd (token : Token) (s : Scan) : Except Fault Scan := do
  let s ← s.dropKey
  if s.inFlow then
    return add token s.spot.step { s with depth := s.depth - 1, mayKey := false }
  else throw .malformed

/-- The sign of an entry that is not preceded by a key: of a list, or of a mapping. -/
def entrySign (start token : Token) (mayKey : Bool) (s : Scan) : Except Fault Scan := do
  if !s.inFlow && !s.mayKey then throw .malformed
  let s ← (s.openAt s.spot.column 0 start).dropKey
  return add token s.spot.step { s with mayKey }

/-- The colon in front of a value. A pending key gets its tokens. -/
def valueSign (s : Scan) : Except Fault Scan :=
  match s.pending.find? fun k => k.depth == s.depth with
  | some k =>
    let back := s.tokens.length - k.number
    let s := { s with
      pending := s.pending.filter fun k => k.depth != s.depth
      tokens := s.tokens.take back ++ Token.key :: s.tokens.drop back }
    let s := s.openAt k.column (back + 1) .mapStart
    .ok (add .value s.spot.step { s with mayKey := false })
  | none => s.entrySign .mapStart .value (!s.inFlow)

/-- A token at which a key may start. -/
def keyed (read : Spot → Except Fault (Token × Spot)) (s : Scan) : Except Fault Scan := do
  let s ← s.noteKey
  let (token, spot) ← read s.spot
  return add token spot { s with mayKey := false }

/-- A block scalar. -/
def blockScalar (s : Scan) : Except Fault Scan := do
  let s ← s.dropKey
  let (text, spot) ← s.spot.block s.least
  return add (.scalar text false false) spot { s with mayKey := true }

/-- A plain scalar. -/
def plainScalar (s : Scan) : Except Fault Scan := do
  let s ← s.noteKey
  let (text, broken, spot) := s.spot.plain s.inFlow s.least
  return add (.scalar text true false) spot { s with mayKey := broken }

/-- Whether a character has a meaning of its own at the start of a token. -/
def isSign (c : Char) : Bool :=
  isGap c || isFlowSign c || "-?:#&*!|>'\x22%@".toList.contains c || c.toNat == 96

/-- Whether a plain scalar may start here. -/
def startsPlain (s : Scan) : Bool :=
  let c := s.spot.peek
  !isSign c || (!isGap (s.spot.peekAt 1) && (c == '-' || (!s.inFlow && (c == '?' || c == ':'))))

/-- The next token. -/
def next (s : Scan) : Except Fault Scan := do
  let s ← s.toToken.dropStale
  let s := s.close (s.spot.column + 1)
  let spot := s.spot
  let c := spot.peek
  let signs := s.inFlow || isGap (spot.peekAt 1)
  if c == ending then
    let s ← (s.close 0).dropKey
    return add .finish spot { s with pending := [] }
  else if c == '%' && spot.column == 0 then
    let s ← (s.close 0).dropKey
    let (token, spot) ← spot.directive
    return add token spot { s with mayKey := false }
  else if c == '-' && spot.column == 0 && spot.atMark then s.mark .documentStart
  else if c == '.' && spot.column == 0 && spot.atMark then s.mark .documentEnd
  else if c == '[' then s.flowStart .flowListStart
  else if c == '\x7b' then s.flowStart .flowMapStart
  else if c == ']' then s.flowEnd .flowListEnd
  else if c == '\x7d' then s.flowEnd .flowMapEnd
  else if c == ',' then
    let s ← s.dropKey
    return add .comma spot.step { s with mayKey := true }
  else if c == '-' && isGap (spot.peekAt 1) then s.entrySign .listStart .entry true
  else if c == '?' && signs then s.entrySign .mapStart .key (!s.inFlow)
  else if c == ':' && signs then s.valueSign
  else if c == '*' then
    s.keyed fun spot => (spot.step.anchorName).map fun (name, spot) => (.reference name, spot)
  else if c == '&' then
    s.keyed fun spot => (spot.step.anchorName).map fun (name, spot) => (.anchor name, spot)
  else if c == '!' then s.keyed Spot.tag
  else if (c == '|' || c == '>') && !s.inFlow then s.blockScalar
  else if c == '\x27' || c == '\x22' then
    s.keyed fun spot => spot.quoted.map fun (codes, spot) => (.ofCodes codes, spot)
  else if s.startsPlain then s.plainScalar
  else throw .malformed

/-- The tokens in front of every pending key, oldest first. -/
def certain (s : Scan) : List Token :=
  let numbers := (s.pending.filter fun k => !k.isStale s.spot).map PendingKey.number
  s.tokens.reverse.take (numbers.foldl min s.tokens.length)

/-- All tokens, oldest first. -/
def run : Nat → Scan → List Token
  | 0, s => s.certain ++ [.fault .malformed]
  | fuel + 1, s => match s.next with
    | .error fault => s.certain ++ [.fault fault]
    | .ok s => if s.tokens.head? == some .finish then s.tokens.reverse else run fuel s

end Scan

/-- The tokens of a document. Every token takes up a character at least. -/
def Token.scan (s : List Char) : List Token := Scan.run (s.length + 2) ⟨⟨s, 0, 0, 0⟩, 0, [], true, [], []⟩

end RailsUpgrade.Yaml
