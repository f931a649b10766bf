import RailsUpgrade.Pattern.Spelling
import RailsUpgrade.Text.Quoted

/-!
# `RailsUpgrade.Pattern.Template`: replacement texts with references to groups

A template is a text in which a backslash and a number, or `g` with a number or a name in angle
brackets, stand for the text of a group, a backslash and a letter of `abfnrtv` for a control
character, and a backslash and octal digits for a character. A backslash before anything but an
ASCII letter or digit stands for itself. A group that took no part is empty.

A template is read as a whole before it is used, so a fault in it shows even if the pattern
matches nowhere.
-/

set_option autoImplicit false

namespace RailsUpgrade.Pattern

/-- Why a template cannot be used. -/
inductive TemplateFault where
  | trailingBackslash
  | badEscape (c : Char)
  | octalTooLarge (digits : List Char)
  | missingAngle
  | missingName
  | unclosedName
  | badName (name : String)
  | noSuchGroup (i : Nat)
  deriving DecidableEq, Repr

/-- A fault and the offset of the place that it is at, or a name that no group has. -/
inductive TemplateError where
  | at (fault : TemplateFault) (template : String) (pos : Nat)
  | unknownName (name : String)
  deriving DecidableEq, Repr

/-- What is wrong with a template. -/
def TemplateFault.message : TemplateFault → String
  | .trailingBackslash => "bad escape (end of pattern)"
  | .badEscape c => "bad escape \\" ++ c.toString
  | .octalTooLarge digits =>
    "octal escape value \\" ++ String.ofList digits ++ " outside of range 0-0o377"
  | .missingAngle => "missing <"
  | .missingName => "missing group name"
  | .unclosedName => "missing >, unterminated name"
  | .badName name => "bad character in group name " ++ Text.quoted name
  | .noSuchGroup i => "invalid group reference " ++ toString i

/-- The full message, with line and column if the template has several lines. -/
def TemplateError.message : TemplateError → String
  | .unknownName name => "unknown group name " ++ Text.quoted name
  | .at fault template pos =>
    let left := template.toList.take pos
    let base := fault.message ++ " at position " ++ toString pos
    if template.toList.contains '\n' then
      base ++ " (line " ++ toString (left.count '\n' + 1) ++ ", column "
        ++ toString ((left.reverse.takeWhile (· != '\n')).length + 1) ++ ")"
    else base

/-- A part of a template. -/
inductive TemplatePart where
  | char (c : Char)
  | group (i : Nat)
  deriving DecidableEq, Repr

/-- How many characters of the template a token takes. -/
def Token.width : Token → Nat
  | .plain _ | .dangling => 1
  | .escaped _ => 2

/-- The characters of a token. -/
def Token.chars : Token → List Char
  | .plain c => [c]
  | .escaped c => ['\\', c]
  | .dangling => ['\\']

/-- A template on its way: the tokens that are left and the offset of the first of them. -/
structure TemplateInput where
  rest : List Token
  pos : Nat

/-- A fault `back` characters in front of the next token. -/
def TemplateInput.fail {α : Type} (i : TemplateInput) (fault : TemplateFault) (back : Nat) :
    Except (TemplateFault × Nat) α :=
  .error (fault, i.pos - back)

/-- The token to come has to be complete. -/
def TemplateInput.checked (i : TemplateInput) : Except (TemplateFault × Nat) TemplateInput :=
  if i.rest.head? == some .dangling then i.fail .trailingBackslash 0 else .ok i

/-- Passes over the first of the tokens. -/
def TemplateInput.step (i : TemplateInput) : Except (TemplateFault × Nat) TemplateInput :=
  match i.rest with
  | [] => .ok i
  | token :: rest => TemplateInput.checked ⟨rest, i.pos + token.width⟩

/-- The next character, if it is a plain one that `p` accepts. -/
def TemplateInput.peek? (i : TemplateInput) (p : Char → Bool) : Option Char :=
  match i.rest with
  | .plain c :: _ => if p c then some c else none
  | _ => none

/-- Reads a name up to the closing angle bracket. -/
def templateName (name : List Char) :
    Nat → TemplateInput → Except (TemplateFault × Nat) (List Char × TemplateInput)
  | 0, i => i.fail .unclosedName 0
  | fuel + 1, i => match i.rest with
    | [] => if name.isEmpty then i.fail .missingName 0 else i.fail .unclosedName name.length
    | token :: _ => do
      let i ← i.step
      if token == .plain '>' then
        if name.isEmpty then i.fail .missingName 1 else return (name, i)
      else templateName (name ++ token.chars) fuel i

/-- What a reference in angle brackets refers to: a number, or a name that has to be known. -/
def namedGroup (p : Pattern) (name : List Char) (i : TemplateInput) :
    Except (TemplateFault × Nat) (Except String Nat) :=
  if Text.isName name then
    let name := String.ofList name
    match p.names.lookup name with
    | some n => .ok (.ok n)
    | none => .ok (.error name)
  else match Text.looseNumber? name with
    | none => i.fail (.badName (String.ofList name)) (name.length + 1)
    | some n => if n > p.groups then i.fail (.noSuchGroup n) (name.length + 1) else .ok (.ok n)

/-- Reads a reference or a character after a backslash and a digit. -/
def numberedPart (p : Pattern) (c : Char) (i : TemplateInput) :
    Except (TemplateFault × Nat) (TemplatePart × TemplateInput) := do
  if c == '0' then
    match i.peek? isOctal with
    | none => return (.char (Char.ofNat 0), i)
    | some d =>
      let i ← i.step
      match i.peek? isOctal with
      | none => return (.char (Char.ofNat (d.toNat - 48)), i)
      | some e =>
        let i ← i.step
        return (.char (Char.ofNat (8 * (d.toNat - 48) + (e.toNat - 48))), i)
  else match i.peek? Char.isDigit with
    | none =>
      if Text.decimal [c] > p.groups then i.fail (.noSuchGroup (Text.decimal [c])) 1
      else return (.group (Text.decimal [c]), i)
    | some d =>
      let i ← i.step
      match if isOctal c && isOctal d then i.peek? isOctal else none with
      | none =>
        if Text.decimal [c, d] > p.groups then i.fail (.noSuchGroup (Text.decimal [c, d])) 2
        else return (.group (Text.decimal [c, d]), i)
      | some e =>
        let i ← i.step
        let n := 64 * (c.toNat - 48) + 8 * (d.toNat - 48) + (e.toNat - 48)
        if n > 255 then i.fail (.octalTooLarge [c, d, e]) 4 else return (.char (Char.ofNat n), i)

/-- Reads the parts of a template. A name that no group has ends it. -/
def templateParts (p : Pattern) :
    Nat → TemplateInput → Except (TemplateFault × Nat) (Except String (List TemplatePart))
  | 0, _ => .ok (.ok [])
  | fuel + 1, i => do
    match i.rest with
    | [] => return .ok []
    | .dangling :: _ => i.fail .trailingBackslash 0
    | .plain c :: _ => return (← templateParts p fuel (← i.step)).map (.char c :: ·)
    | .escaped c :: _ =>
      let i ← i.step
      if c == 'g' then
        if (i.peek? (· == '<')).isNone then i.fail .missingAngle 0
        else
          let i ← i.step
          let (name, i) ← templateName [] (i.rest.length + 1) i
          match ← namedGroup p name i with
          | .error name => return .error name
          | .ok n => return (← templateParts p fuel i).map (.group n :: ·)
      else if c.isDigit then
        let (part, i) ← numberedPart p c i
        return (← templateParts p fuel i).map (part :: ·)
      else if c == '\\' then return (← templateParts p fuel i).map (.char c :: ·)
      else match (if c == 'b' then some 8 else control? c) with
        | some n => return (← templateParts p fuel i).map (.char (Char.ofNat n) :: ·)
        | none =>
          if c.isAlpha then i.fail (.badEscape c) 2
          else return (← templateParts p fuel i).map ([.char '\\', .char c] ++ ·)

/-- Reads a template for the groups of a pattern. -/
def readTemplate (p : Pattern) (template : String) : Except TemplateError (List TemplatePart) :=
  let ts := tokens template.toList
  match (TemplateInput.checked ⟨ts, 0⟩).bind (templateParts p (ts.length + 1)) with
  | .error (fault, pos) => .error (.at fault template pos)
  | .ok (.error name) => .error (.unknownName name)
  | .ok (.ok parts) => .ok parts

/-- What a part of a template stands for in a match. -/
def TemplatePart.fill (m : Match) : TemplatePart → List Char
  | .char c => [c]
  | .group 0 => m.text
  | .group i => m.group i

/-- A template with the groups of a match filled in. -/
def fillTemplate (parts : List TemplatePart) (m : Match) : List Char := parts.flatMap (·.fill m)

end RailsUpgrade.Pattern

namespace RailsUpgrade

/-- A text with a template, filled in, in place of every match. -/
def Pattern.replaceTemplate (p : Pattern) (template : String) (text : List Char) :
    Except Pattern.TemplateError (List Char) :=
  (Pattern.readTemplate p template).map fun parts =>
    p.expr.replaceAll (Pattern.fillTemplate parts) text

end RailsUpgrade
