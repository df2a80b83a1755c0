import Unnest.Host.Regex.Reader
import Unnest.Host.Utility.Names
import Unnest.Host.Utility.Show

/-!
# Finding lines

Lines that match one of several expressions are printed, or those that match none.  A
line can be asked to match as a whole, or so that no word goes on around the match.
-/

namespace Unnest.Host.Utility

open Work

/-- What is looked for, and how it is printed. -/
structure LineSearch where
  expressions : List Regex := []
  rules : Regex.Rules := {}
  isWhole : Bool := false
  isWord : Bool := false
  isInverted : Bool := false
  counts : Bool := false
  isQuiet : Bool := false
  onlyNames : Bool := false
  onlyOthers : Bool := false
  onlyMatches : Bool := false
  numbers : Bool := false
  offsets : Bool := false
  showsNames : Bool := false
  isText : Bool := false
  ending : Char := '\n'
  nameEnding? : Option String := none
  most? : Option Nat := none
  before : Nat := 0
  after : Nat := 0
  label : String := "(standard input)"

namespace LineSearch

/-- Whether a match may end at a place, given where it has started. -/
def accepts (s : LineSearch) (start stop : Regex.Spot) : Bool :=
  (!s.isWhole || (start.before?.isNone && stop.rest.isEmpty)) &&
    (!s.isWord || (!start.isAfterWord && !stop.isBeforeWord))

/-- The longest match that starts at a place. -/
def matchAt? (s : LineSearch) (start : Regex.Spot) : Option Regex.Spot :=
  let found := s.expressions.filterMap fun e =>
    let rules := { s.rules with isExhaustive := s.isWord || e.needsAll }
    Regex.matchAt rules ((e.extent + 2) * (start.rest.length + 2)) e start fun t =>
      if s.accepts start t then some t else none
  found.foldl (fun best? t =>
    match best? with
    | some best => if best.offset < t.offset then some t else some best
    | none => some t) none

/-- The first match at a place or behind it: where it starts, and the place behind it. -/
def findFrom (s : LineSearch) : (steps : Nat) → Regex.Spot → Option (Nat × Regex.Spot)
  | 0, _ => none
  | steps + 1, start =>
    match s.matchAt? start with
    | some t => some (start.offset, t)
    | none =>
      if start.rest.isEmpty || s.isWhole then none else findFrom s steps start.next

/-- The first match on a line. -/
def find (s : LineSearch) (line : List Char) : Option (Nat × Regex.Spot) :=
  s.findFrom (line.length + 1) { offset := 0, before? := none, rest := line }

/-- All matches on a line that are not empty, with their offsets. -/
def findAll (s : LineSearch) : (steps : Nat) → Regex.Spot → List (Nat × List Char)
  | 0, _ => []
  | steps + 1, start =>
    match s.findFrom (start.rest.length + 1) start with
    | none => []
    | some (first, t) =>
      if t.offset = first then
        if t.rest.isEmpty then [] else findAll s steps t.next
      else (first, (start.rest.drop (first - start.offset)).take (t.offset - first)) :: findAll s steps t

/-- Whether a line is one of those that are asked for. -/
def selects (s : LineSearch) (line : List Char) : Bool := (s.find line).isSome != s.isInverted

end LineSearch

/-- A line with its number and offset, and whether it is selected. -/
structure FoundLine where
  number : Nat
  offset : Nat
  text : List Char
  isSelected : Bool

/-- The lines of a text, looked at one after the other until enough are selected. -/
def lookAtLines (s : LineSearch) : (left : Option Nat) → (number offset : Nat) → List String → List FoundLine
  | _, _, _, [] => []
  | left, number, offset, line :: lines =>
    let cs := line.toList
    let isSelected := left != some 0 && s.selects cs
    { number, offset, text := cs, isSelected } ::
      (if left == some 0 then []
       else
        lookAtLines s (if isSelected then left.map (· - 1) else left) (number + 1) (offset + cs.length + 1) lines)

/-- Prints the lines that were found in a file, with the lines around them. -/
def printFound (s : LineSearch) (name : String) (found : List FoundLine) : Work Unit := do
  let hasContext := s.before > 0 || s.after > 0
  let selected := (found.filter (·.isSelected)).map (·.number)
  let last := selected.getLastD 0
  let isShown (l : FoundLine) : Bool :=
    l.isSelected ||
      (hasContext && selected.any fun n =>
        (decide (l.number < n) && decide (n ≤ l.number + s.before)) ||
        (decide (n < l.number) && decide (l.number ≤ n + s.after) && (s.most?.isNone || decide (n ≤ last))))
  let lead (sign : String) (number offset : Nat) : String :=
    (if s.showsNames then name ++ s.nameEnding?.getD sign else "") ++
      (if s.numbers then toString number ++ sign else "") ++ (if s.offsets then toString offset ++ sign else "")
  let mut previous := 0
  let mut out := ""
  for l in found do
    if isShown l then
      if hasContext && previous != 0 && l.number != previous + 1 && !s.onlyMatches then out := out ++ "--\n"
      previous := l.number
      let sign := if l.isSelected then ":" else "-"
      if s.onlyMatches then
        if l.isSelected && !s.isInverted then
          for (offset, part) in s.findAll (l.text.length + 1) { offset := 0, before? := none, rest := l.text } do
            out := out ++ lead ":" l.number (l.offset + offset) ++ (String.ofList part).push s.ending
      else out := out ++ lead sign l.number l.offset ++ (String.ofList l.text).push s.ending
  print out

/-- Searches one text; whether a line was selected. -/
def searchText (s : LineSearch) (name text : String) : Work Bool := do
  let pieces := Octets.split (· == s.ending) text
  let lines := if pieces.getLastD "" == "" then pieces.dropLast else pieces
  let isBinary := s.ending = '\n' && !s.isText && Octets.has text '\x00'
  let left := if s.isQuiet || s.onlyNames || s.onlyOthers then some 1 else s.most?
  -- context behind the last line that counts is still shown
  let found := lookAtLines s left 1 0 lines
  let found :=
    if s.most?.isSome && s.after > 0 then
      found ++ ((lines.drop found.length).take s.after).zipIdx.map fun (line, i) =>
        { number := found.length + i + 1, offset := 0, text := line.toList, isSelected := false }
    else found.filter fun l => l.isSelected || s.before > 0 || s.after > 0
  let count := (found.filter (·.isSelected)).length
  if s.isQuiet then pure ()
  else if s.onlyNames then
    if count > 0 then print (name ++ s.nameEnding?.getD "\n")
  else if s.onlyOthers then
    if count = 0 then print (name ++ s.nameEnding?.getD "\n")
  else if s.counts then
    let lead := if s.showsNames then name ++ s.nameEnding?.getD ":" else ""
    print (lead ++ toString count ++ "\n")
  else if isBinary && count > 0 then complain s!"{name}: binary file matches"
  else printFound s name found
  return if s.onlyOthers then count = 0 else count > 0

/-- Whether a name matches one of several patterns. -/
def matchesAny (patterns : List String) (name : String) : Bool :=
  patterns.any fun p => (Pattern.ofGlyphs false (Glyph.active p)).isMatch name.toList

/-- The expression that a text is on its own. -/
def literalRegex (text : String) : Regex :=
  text.toList.foldr (fun c e => if e matches .nothing then .char c else .sequence (.char c) e) .nothing

/-- An expression with names of classes in place of letters that stand for them. -/
def plainClasses : List Char → List Char
  | '\\' :: 'd' :: cs => "[0-9]".toList ++ plainClasses cs
  | '\\' :: 'D' :: cs => "[^0-9]".toList ++ plainClasses cs
  | '\\' :: c :: cs => '\\' :: c :: plainClasses cs
  | '(' :: '?' :: ':' :: cs => '(' :: plainClasses cs
  | c :: cs => c :: plainClasses cs
  | [] => []

/-- The old way to write how many lines around are shown. -/
def oldContext (args : List String) : List String :=
  args.map fun arg =>
    match arg.toList with
    | '-' :: c :: cs => if (c :: cs).all Char.isDigit then "-C" ++ String.ofList (c :: cs) else arg
    | _ => arg

/-- The kinds of expressions. -/
inductive ExpressionKind where
  | basic
  | extended
  | fixed
  | perl
  deriving DecidableEq

/-- Prints the lines of files that match. -/
def grep (kind : ExpressionKind) : Utility := fun args => do
  let g ← options
    { letters := "A:aB:bC:cD:d:EFe:f:GHhIiLlm:noPqRrsTUuVvwxyZz", failure := 2
      words := [("regexp", .value, "e"), ("file", .value, "f"), ("ignore-case", .nothing, "i"),
        ("no-ignore-case", .nothing, "no-i"), ("word-regexp", .nothing, "w"), ("line-regexp", .nothing, "x"),
        ("null-data", .nothing, "z"), ("no-messages", .nothing, "s"), ("invert-match", .nothing, "v"),
        ("max-count", .value, "m"), ("byte-offset", .nothing, "b"), ("line-number", .nothing, "n"),
        ("line-buffered", .nothing, "buffered"), ("with-filename", .nothing, "H"), ("no-filename", .nothing, "h"),
        ("label", .value, "label"), ("only-matching", .nothing, "o"), ("quiet", .nothing, "q"),
        ("silent", .nothing, "q"), ("binary-files", .value, "binary"), ("text", .nothing, "a"),
        ("directories", .value, "d"), ("devices", .value, "D"), ("recursive", .nothing, "r"),
        ("dereference-recursive", .nothing, "R"), ("include", .value, "include"), ("exclude", .value, "exclude"),
        ("exclude-from", .value, "from"), ("exclude-dir", .value, "exclude-dir"),
        ("files-without-match", .nothing, "L"), ("files-with-matches", .nothing, "l"), ("count", .nothing, "c"),
        ("initial-tab", .nothing, "T"), ("null", .nothing, "Z"), ("before-context", .value, "B"),
        ("after-context", .value, "A"), ("context", .value, "C"), ("color", .attached, "color"),
        ("colour", .attached, "color"), ("extended-regexp", .nothing, "E"), ("fixed-strings", .nothing, "F"),
        ("basic-regexp", .nothing, "G"), ("perl-regexp", .nothing, "P")] } (oldContext args)
  let kind : ExpressionKind :=
    match g.last? ["E", "F", "G", "P"] with
    | some "E" => .extended
    | some "F" => .fixed
    | some "P" => .perl
    | some _ => .basic
    | none => kind
  let given ←
    if g.has "e" || g.has "f" then do
      let mut texts := g.values "e"
      for path in g.values "f" do
        match ← readOperand path with
        | .ok text => texts := texts ++ Octets.lines text
        | .error f => fail 2 s!"{path}: {f.text}"
      pure (texts, g.operands)
    else
      match g.operands with
      | [] => do
        tell "Usage: grep [OPTION]... PATTERNS [FILE]..."
        tell "Try 'grep --help' for more information."
        quit 2
      | pattern :: files => pure ([pattern], files)
  let (texts, operands) := given
  let mut expressions : List Regex := []
  for text in texts.flatMap (Octets.split (· == '\n')) do
    match kind with
    | .fixed => expressions := expressions ++ [literalRegex text]
    | _ =>
      let manner : Regex.Manner :=
        if kind == .basic then {}
        else { isExtended := true, leading := .nothing, closesFreely := kind == .extended, bracesFreely := true }
      let text := if kind == .perl then String.ofList (plainClasses text.toList) else text
      match Regex.ofText manner text with
      | .ok e => expressions := expressions ++ [e]
      | .error m => fail 2 m.text
  let number (o : String) : Work (Option Nat) := do
    match g.value? o with
    | none => return none
    | some text =>
      match Numeral.decimal? text with
      | some n => return some n
      | none => fail 2 s!"{text}: invalid context length argument"
  let around := (← number "C").getD 0
  let most? ←
    match g.value? "m" with
    | none => pure none
    | some text =>
      match Numeral.integer? text with
      | some n => pure (if n < 0 then none else some n.toNat)
      | none => fail 2 "invalid max count"
  let isRecursive := g.has "r" || g.has "R" || g.value? "d" == some "recurse"
  let s : LineSearch :=
    { expressions
      rules := { ignoresCase := g.last? ["i", "y", "no-i"] matches some "i" | some "y" }
      isWhole := g.has "x", isWord := g.has "w" && !g.has "x", isInverted := g.has "v", counts := g.has "c"
      isQuiet := g.has "q", onlyNames := g.has "l" && g.last? ["l", "L"] == some "l"
      onlyOthers := g.last? ["l", "L"] == some "L", onlyMatches := g.has "o", numbers := g.has "n"
      offsets := g.has "b"
      showsNames :=
        match g.last? ["H", "h"] with
        | some o => o == "H"
        | none => decide (operands.length > 1) || isRecursive
      isText := g.has "a" || g.value? "binary" == some "text", ending := if g.has "z" then '\x00' else '\n'
      nameEnding? := if g.has "Z" then some "\x00" else none, most?
      before := (← number "B").getD around, after := (← number "A").getD around
      label := (g.value? "label").getD "(standard input)" }
  if most? == some 0 then return 1
  -- the files to search, with the names that are shown
  let mut targets : List String := []
  for path in (if operands.isEmpty then [if isRecursive then "." else "-"] else operands) do
    let found? ← ask fun fs here => fs.find? here path
    let isFolder ← ask fun fs _ => found?.any fs.isDirectory
    if isRecursive && isFolder && path != "-" then
      let inner ← ask fun fs _ => fs.tree 1000 path (found?.getD 0)
      for (p, i) in inner do
        let node := (← files).get i
        let names := (Files.names p).drop (Files.names path).length
        let p := if operands.isEmpty then (Octets.after? "./" p).getD p else p
        if (node.isFile || (g.has "R" && node.isLink)) &&
            (!g.has "include" || matchesAny (g.values "include") (lastName p)) &&
            !matchesAny (g.values "exclude") (lastName p) && !names.dropLast.any (matchesAny (g.values "exclude-dir")) then
          targets := targets ++ [p]
    else if !matchesAny (g.values "exclude") (lastName path) then targets := targets ++ [path]
  let mut isFound := false
  let mut isFaulty := false
  for path in targets do
    if !(isFound && s.isQuiet) then
      let name := if path = "-" then s.label else path
      match ← readOperand path with
      | .ok text =>
        if ← searchText s name text then isFound := true
      | .error f =>
        if f == .isDirectory && g.value? "d" == some "skip" then pure ()
        else
          if !g.has "s" then complain s!"{path}: {f.text}"
          isFaulty := true
  return if isFound && (s.isQuiet || !isFaulty) then 0 else if isFaulty then 2 else if isFound then 0 else 1

end Unnest.Host.Utility
