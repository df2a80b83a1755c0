import Unnest.Host.Numeral
import Unnest.Host.Regex.Basic

/-!
# The text of a regular expression

Expressions are written in two ways.  In the basic one groups, bounds and alternatives
are marked by backslashes, in the extended one by the signs alone.  A sign that repeats
needs something before it; what it means where nothing is there differs from program to
program, and so does a bracket that nothing opens, which is what a `Manner` says.
-/

namespace Unnest.Host.Regex

/-- What a sign that repeats means where nothing is before it. -/
inductive Leading where
  | character
  | mistake
  | nothing
  deriving DecidableEq, Repr

/-- How expressions are written. -/
structure Manner where
  isExtended : Bool := false
  leading : Leading := .character
  /-- Whether a parenthesis that nothing opens means itself. -/
  closesFreely : Bool := false
  /-- Whether a brace that opens no bounds means itself. -/
  bracesFreely : Bool := false
  deriving Repr

/-- Why an expression cannot be read. -/
inductive Mistake where
  | openGroup
  | closedGroup
  | openBounds
  | badBounds
  | openSet
  | badRange
  | badClass
  | badRepetition
  | badReference
  | trailingBackslash
  deriving DecidableEq, Repr, Inhabited

/-- A mistake in words. -/
def Mistake.text : Mistake → String
  | .openGroup => "Unmatched ( or \\("
  | .closedGroup => "Unmatched ) or \\)"
  | .openBounds => "Unmatched \\\x7b"
  | .badBounds => "Invalid content of \\\x7b\\\x7d"
  | .openSet => "Unmatched [, [^, [:, [., or [="
  | .badRange => "Invalid range end"
  | .badClass => "Invalid character class name"
  | .badRepetition => "Invalid preceding regular expression"
  | .badReference => "Invalid back reference"
  | .trailingBackslash => "Trailing backslash"

/-- An expression that is being read. -/
structure Reading where
  rest : List Char
  /-- How many groups were opened. -/
  groups : Nat := 0
  /-- The groups that were closed. -/
  closed : List Nat := []

/-- A reader of expressions. -/
abbrev Reader := ExceptT Mistake (StateM Reading)

namespace Reader

def rest : Reader (List Char) := return (← get).rest

def skip (count : Nat) : Reader Unit := modify fun s => { s with rest := s.rest.drop count }

/-- Takes characters if they are next. -/
def take (text : String) : Reader Bool := do
  if text.toList.isPrefixOf (← rest) then
    skip text.length
    return true
  else return false

/-! ## Sets -/

/-- The name between two signs that stand at brackets, such as colons. -/
def bracketName (sign : Char) : List Char → Option (List Char × List Char)
  | [] => none
  | c :: cs =>
    if c = sign && cs.head? == some ']' then some ([], cs.tail)
    else (bracketName sign cs).map fun (name, rest) => (c :: name, rest)

/-- One end of a range: a character, or its name between dots or equal signs. -/
def setEnd (cs : List Char) : Except Mistake (Char × List Char) :=
  match cs with
  | '[' :: sign :: rest =>
    if sign = '.' || sign = '=' then
      match bracketName sign rest with
      | some ([c], rest) => .ok (c, rest)
      | some _ => .error .badClass
      | none => .error .openSet
    else .ok ('[', sign :: rest)
  | c :: rest => .ok (c, rest)
  | [] => .error .openSet

/-- A member that may be a range, and what follows. -/
def setMember (cs : List Char) : Except Mistake (SetItem × List Char) := do
  let (first, rest) ← setEnd cs
  match rest with
  | '-' :: ']' :: _ => return (.range first first, rest)
  | '-' :: rest => do
    let (last, rest) ← setEnd rest
    if last < first then throw .badRange
    return (.range first last, rest)
  | _ => return (.range first first, rest)

/-- The members of a set up to the bracket that closes it. -/
def setItems : (steps : Nat) → (isFirst : Bool) → List Char → Except Mistake (List SetItem × List Char)
  | 0, _, _ => .error .openSet
  | _ + 1, _, [] => .error .openSet
  | steps + 1, isFirst, c :: cs => do
    if c = ']' && !isFirst then return ([], cs)
    let (item, rest) ←
      match c, cs with
      | '[', ':' :: named => do
        match bracketName ':' named with
        | none => throw .openSet
        | some (name, rest) =>
          let name := String.ofList name
          if (octetClass? name).isNone then throw .badClass
          pure (SetItem.named name, rest)
      | _, _ => setMember (c :: cs)
    let (items, rest) ← setItems steps false rest
    return (item :: items, rest)

/-- A set whose first bracket was read. -/
def readSet : Reader Regex := do
  let isNegated ← take "^"
  let cs ← rest
  match setItems (cs.length + 1) true cs with
  | .error m => throw m
  | .ok (items, rest) => do
    modify fun s => { s with rest }
    return .set isNegated items

/-! ## Repetitions -/

/-- The bounds behind an opening brace; nothing if they are none. -/
def bounds (isExtended : Bool) (cs : List Char) : Option ((Nat × Option Nat) × List Char) :=
  let least? := Numeral.inBase? 10 (cs.takeWhile Char.isDigit)
  let cs := cs.dropWhile Char.isDigit
  let (most?, hasComma, cs) :=
    match cs with
    | ',' :: cs =>
      (Numeral.inBase? 10 (cs.takeWhile Char.isDigit), true, cs.dropWhile Char.isDigit)
    | cs => (least?, false, cs)
  let close := if isExtended then ['\x7d'] else ['\\', '\x7d']
  if least?.isNone && !hasComma then none
  else if close.isPrefixOf cs then some ((least?.getD 0, most?), cs.drop close.length)
  else none

/-- How often something may be repeated. -/
def repetitionLimit : Nat := 32767

/-- The bounds of a sign that repeats, if one is next. -/
def readRepetition (m : Manner) : Reader (Option (Nat × Option Nat)) := do
  let sign (text : String) : String := if m.isExtended then text else "\\" ++ text
  if ← take "*" then return some (0, none)
  if ← take (sign "+") then return some (1, none)
  if ← take (sign "?") then return some (0, some 1)
  let before ← get
  if ← take (sign "\x7b") then
    match bounds m.isExtended (← rest) with
    | some ((least, most?), rest) => do
      if least > repetitionLimit || most?.any fun most => most < least || most > repetitionLimit then
        throw .badBounds
      modify fun s => { s with rest }
      return some (least, most?)
    | none =>
      if m.bracesFreely then
        modify fun _ => before
        return none
      else if (← rest).contains '\x7d' then throw .badBounds
      else throw .openBounds
  return none

/-- Something with the signs behind it that repeat it. -/
def readRepeated (m : Manner) : (steps : Nat) → Regex → Reader Regex
  | 0, e => return e
  | steps + 1, e => do
    match ← readRepetition m with
    | some (least, most?) => readRepeated m steps (.repeated e least most?)
    | none => return e

/-! ## Expressions -/

/-- The members of the set of characters that words are made of. -/
def wordItems : List SetItem := [.named "alnum", .range '_' '_']

/-- Whether an alternative ends here. -/
def isAtEnd (m : Manner) (depth : Nat) : Reader Bool := do
  match ← rest with
  | [] => return true
  | '\\' :: c :: _ => return !m.isExtended && (c = '|' || c = ')')
  | '|' :: _ => return m.isExtended
  | ')' :: _ => return m.isExtended && (depth > 0 || !m.closesFreely)
  | _ => return false

/-- What a backslash and a character stand for. -/
def escaped (c : Char) : Reader Regex := do
  match c with
  | 'w' => return .set false wordItems
  | 'W' => return .set true wordItems
  | 's' => return .set false [.named "space"]
  | 'S' => return .set true [.named "space"]
  | 'b' => return .wordEdge
  | 'B' => return .noWordEdge
  | '<' => return .wordStart
  | '>' => return .wordStop
  | '\x60' => return .textStart
  | '\x27' => return .textStop
  | c =>
    if c.isDigit && c != '0' then
      let n := c.toNat - '0'.toNat
      if (← get).closed.contains n then return .again n else throw .badReference
    else return .char c

/-- Whether an expression stands for a place and not for characters. -/
def isPlace : Regex → Bool
  | .start | .stop | .textStart | .textStop | .wordStart | .wordStop | .wordEdge | .noWordEdge => true
  | _ => false

/-- One part of an expression, without signs that repeat it.  `isFirst` says that it is
the first of its alternative, and `inner` reads what stands in a group. -/
def readPart (m : Manner) (isFirst : Bool) (depth : Nat) (inner : Reader Regex) : Reader Regex := do
  let opening := if m.isExtended then "(" else "\\("
  let closing := if m.isExtended then ")" else "\\)"
  if ← take opening then
    let number := (← get).groups + 1
    modify fun s => { s with groups := number }
    let e ← inner
    if !(← take closing) then throw .openGroup
    modify fun s => { s with closed := number :: s.closed }
    return .group number e
  match ← rest with
  | [] => return .nothing
  | c :: cs =>
    skip 1
    match c with
    | '.' => return .any
    | '[' => readSet
    | '^' => return if m.isExtended || isFirst then .start else .char '^'
    | '$' => return if m.isExtended || (← isAtEnd m depth) then .stop else .char '$'
    | '\\' =>
      match cs with
      | [] => throw .trailingBackslash
      | d :: _ =>
        skip 1
        escaped d
    | c => return .char c

/-- Alternatives as one expression, of which a part goes in front of the first. -/
def inFront (e : Regex) : List Regex → List Regex
  | [] => [e]
  | .nothing :: es => e :: es
  | f :: es => .sequence e f :: es

/-- One expression for alternatives. -/
def anyOf : List Regex → Regex
  | [] => .nothing
  | [e] => e
  | e :: es => .either e (anyOf es)

/-- What is left of an alternative, and the alternatives behind it.  `hasSubject` says
whether there is something before that could have been repeated. -/
def readAlternatives (m : Manner) :
    (steps depth : Nat) → (isFirst hasSubject : Bool) → Reader (List Regex)
  | 0, _, _, _ => throw .badRepetition
  | steps + 1, depth, isFirst, hasSubject => do
    if ← isAtEnd m depth then
      if ← take (if m.isExtended then "|" else "\\|") then
        return .nothing :: (← readAlternatives m steps depth true false)
      else if depth = 0 && !(← rest).isEmpty then throw .closedGroup
      else return [.nothing]
    let before ← get
    let leads ← if hasSubject then pure false else do pure (← readRepetition m).isSome
    if leads then
      match m.leading with
      | .mistake => throw .badRepetition
      | .nothing => return ← readAlternatives m steps depth isFirst false
      | .character =>
        -- the sign means itself
        modify fun _ => before
        if (← rest).head? == some '\\' then skip 1
        let e := Regex.char ((← rest).headD '*')
        skip 1
        let e ← readRepeated m (← rest).length e
        return inFront e (← readAlternatives m steps depth false true)
    let inner : Reader Regex := do return anyOf (← readAlternatives m steps (depth + 1) true false)
    let e ← readPart m isFirst depth inner
    if isPlace e then return inFront e (← readAlternatives m steps depth false false)
    let e ← readRepeated m (← rest).length e
    return inFront e (← readAlternatives m steps depth false true)

end Reader

/-- Reads an expression. -/
def ofText (m : Manner) (text : String) : Except Mistake Regex :=
  let reading : Reader Regex := do
    return Reader.anyOf (← Reader.readAlternatives m (text.length + 2) 0 true false)
  (reading.run { rest := text.toList }).1

end Unnest.Host.Regex
