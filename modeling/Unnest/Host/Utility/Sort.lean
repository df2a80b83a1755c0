import Unnest.Host.Utility.Show

/-!
# Sorting lines

Lines are put into an order by keys: parts of the line, compared as texts, numbers,
months or versions.  Lines whose keys are all the same are told apart by the whole line,
unless the order in which they were read is to be kept.
-/

namespace Unnest.Host.Sorting

/-- How keys are compared. -/
inductive Measure where
  | text
  | number
  | size
  | general
  | month
  | version
  deriving DecidableEq, Repr, Inhabited

/-- How one key is compared. -/
structure Style where
  measure : Measure := .text
  isReverse : Bool := false
  skipsBlanks : Bool := false
  /-- Whether blanks in front of the end of the key do not count as columns. -/
  endSkipsBlanks : Bool := false
  foldsCase : Bool := false
  onlyWords : Bool := false
  onlyPrintable : Bool := false
  deriving DecidableEq, Repr, Inhabited

/-- A key: where it starts and ends on a line. -/
structure Key where
  field : Nat := 1
  char : Nat := 1
  lastField? : Option Nat := none
  /-- The last character, or nought for the end of the field. -/
  lastChar : Nat := 0
  style? : Option Style := none
  deriving Repr, Inhabited

/-- Adds a letter to a style; `isEnd` says that it stands behind the end of a key. -/
def Style.add? (s : Style) (isEnd : Bool) : Char → Option Style
  | 'b' => some (if isEnd then { s with endSkipsBlanks := true } else { s with skipsBlanks := true })
  | 'd' => some { s with onlyWords := true }
  | 'f' => some { s with foldsCase := true }
  | 'g' => some { s with measure := .general }
  | 'h' => some { s with measure := .size }
  | 'i' => some { s with onlyPrintable := true }
  | 'M' => some { s with measure := .month }
  | 'n' => some { s with measure := .number }
  | 'V' => some { s with measure := .version }
  | 'r' => some { s with isReverse := true }
  | _ => none

/-- Reads the letters behind a place of a key. -/
def readLetters (isEnd : Bool) : Style → List Char → Option (Style × List Char)
  | s, [] => some (s, [])
  | s, ',' :: cs => some (s, ',' :: cs)
  | s, c :: cs => (s.add? isEnd c).bind fun s => readLetters isEnd s cs

/-- A number, and one behind a point. -/
def readPlace (cs : List Char) : Option (Nat × Option Nat × List Char) := do
  let digits := cs.takeWhile Char.isDigit
  let n ← Numeral.inBase? 10 digits
  match cs.drop digits.length with
  | '.' :: cs => do
    let more := cs.takeWhile Char.isDigit
    let m ← Numeral.inBase? 10 more
    return (n, some m, cs.drop more.length)
  | cs => return (n, none, cs)

/-- Reads a key. -/
def readKey? (text : String) : Option Key := do
  let (field, char?, cs) ← readPlace text.toList
  if field = 0 || char? == some 0 then none
  else
    let (style, cs) ← readLetters false {} cs
    let (key, style) ←
      match cs with
      | [] => some ({ field, char := char?.getD 1 : Key }, style)
      | _ :: cs => do
        let (last, lastChar?, cs) ← readPlace cs
        if last = 0 then none
        else
          let (style, cs) ← readLetters true style cs
          if cs.isEmpty then
            some ({ field, char := char?.getD 1, lastField? := some last, lastChar := lastChar?.getD 0 : Key },
              style)
          else none
    some { key with style? := if style == {} then none else some style }

/-! ## Where keys are -/

/-- Where fields start and end on a line. -/
def fieldBounds (separator? : Option Char) (line : List Char) : List (Nat × Nat) :=
  match separator? with
  | some c =>
    let (bounds, start, i) := line.foldl (fun ((bounds, start, i) : List (Nat × Nat) × Nat × Nat) d =>
      if d = c then ((start, i) :: bounds, i + 1, i + 1) else (bounds, start, i + 1)) ([], 0, 0)
    ((start, i) :: bounds).reverse
  | none =>
    -- a field starts with the blanks in front of it
    let (bounds, start, i, _) := line.foldl
      (fun ((bounds, start, i, inText) : List (Nat × Nat) × Nat × Nat × Bool) d =>
        if Octets.isBlank d then
          if inText then ((start, i) :: bounds, i, i + 1, false) else (bounds, start, i + 1, false)
        else (bounds, start, i + 1, true)) ([], 0, 0, false)
    ((start, i) :: bounds).reverse

/-- The part of a line that a key is. -/
def Key.part (k : Key) (s : Style) (separator? : Option Char) (line : List Char) : List Char :=
  let size := line.length
  let bounds := fieldBounds separator? line
  let blanksFrom (i : Nat) : Nat := ((line.drop i).takeWhile Octets.isBlank).length
  let start :=
    match bounds[k.field - 1]? with
    | none => size
    | some (i, _) => min size ((if s.skipsBlanks then i + blanksFrom i else i) + (k.char - 1))
  let stop :=
    match k.lastField? with
    | none => size
    | some last =>
      match bounds[last - 1]? with
      | none => size
      | some (i, j) =>
        if k.lastChar = 0 then j
        else min size ((if s.endSkipsBlanks then i + blanksFrom i else i) + k.lastChar)
  (line.take stop).drop start

/-! ## Comparing -/

/-- The number at the start of a text, as a whole number and how many of its digits
stand behind the point, and what follows. -/
def leadingNumber (cs : List Char) : Int × Nat × List Char :=
  let cs := cs.dropWhile Octets.isBlank
  let (isNegative, cs) :=
    match cs with
    | '-' :: cs => (true, cs)
    | cs => (false, cs)
  let whole := cs.takeWhile Char.isDigit
  let cs := cs.drop whole.length
  let (fraction, cs) :=
    match cs with
    | '.' :: cs => (cs.takeWhile Char.isDigit, cs.dropWhile Char.isDigit)
    | cs => ([], cs)
  let n : Int := (Numeral.inBase? 10 (whole ++ fraction)).getD 0
  (if isNegative then -n else n, fraction.length, cs)

def compareInt (a b : Int) : Ordering := compare a b

/-- Compares numbers with digits behind the point. -/
def compareNumbers (a b : List Char) : Ordering :=
  let (m, p, _) := leadingNumber a
  let (n, q, _) := leadingNumber b
  compareInt (m * Nat.pow 10 q) (n * Nat.pow 10 p)

/-- The rank of the unit behind a size. -/
def unitRank (cs : List Char) : Nat :=
  match cs with
  | c :: _ => ("KMGTPEZYRQ".toList.idxOf c.toUpper + 1) % 11
  | [] => 0

/-- Compares sizes by their signs, units and numbers. -/
def compareSizes (a b : List Char) : Ordering :=
  let (m, p, ra) := leadingNumber a
  let (n, q, rb) := leadingNumber b
  let rank (n : Int) (cs : List Char) : Int := if n = 0 then 0 else n.sign * (1 + unitRank cs)
  (compareInt (rank m ra) (rank n rb)).then (compareInt (m * Nat.pow 10 q) (n * Nat.pow 10 p))

/-- The number of a month by its first letters, or nought. -/
def monthNumber (cs : List Char) : Nat :=
  let names := ["JAN", "FEB", "MAR", "APR", "MAY", "JUN", "JUL", "AUG", "SEP", "OCT", "NOV", "DEC"]
  let start := String.ofList (((cs.dropWhile Octets.isBlank).take 3).map Char.toUpper)
  (names.idxOf start + 1) % 13

/-- The order of characters in versions: a tilde is before the end, letters before
others. -/
def versionRank : Option Char → Int
  | none => 0
  | some c =>
    if c = '~' then -1 else if c.isDigit then 0 else if c.isAlpha then c.toNat else c.toNat + 256

/-- Compares versions: runs of digits count as numbers. -/
def compareVersions : (steps : Nat) → List Char → List Char → Ordering
  | 0, _, _ => .eq
  | steps + 1, a, b =>
    if a.isEmpty && b.isEmpty then .eq
    else
      let isNumber (cs : List Char) : Bool := cs.head?.any Char.isDigit
      if (isNumber a || a.isEmpty) && (isNumber b || b.isEmpty) && (isNumber a || isNumber b) then
        let n := (Numeral.inBase? 10 (a.takeWhile Char.isDigit)).getD 0
        let m := (Numeral.inBase? 10 (b.takeWhile Char.isDigit)).getD 0
        (compare n m).then (compareVersions steps (a.dropWhile Char.isDigit) (b.dropWhile Char.isDigit))
      else
        let first (cs : List Char) : Option Char := if isNumber cs then some '0' else cs.head?
        (compareInt (versionRank (first a)) (versionRank (first b))).then
          (compareVersions steps (if isNumber a then a else a.tail) (if isNumber b then b else b.tail))

/-- Compares texts octet by octet. -/
def compareTexts : List Char → List Char → Ordering
  | [], [] => .eq
  | [], _ :: _ => .lt
  | _ :: _, [] => .gt
  | c :: cs, d :: ds => if c = d then compareTexts cs ds else compare c.toNat d.toNat

/-- Compares two keys. -/
def Style.compare (s : Style) (a b : List Char) : Ordering :=
  let ordering :=
    match s.measure with
    | .text =>
      let clean (cs : List Char) : List Char :=
        let cs := if s.skipsBlanks then cs.dropWhile Octets.isBlank else cs
        let cs := if s.onlyWords then cs.filter fun c => c.isAlphanum || Octets.isBlank c else cs
        let cs := if s.onlyPrintable then cs.filter Octets.isPrintable else cs
        if s.foldsCase then cs.map Char.toUpper else cs
      compareTexts (clean a) (clean b)
    | .number => compareNumbers a b
    | .general => compareNumbers a b
    | .size => compareSizes a b
    | .month => Ord.compare (monthNumber a) (monthNumber b)
    | .version => (compareVersions (a.length + b.length + 1) a b).then (compareTexts a b)
  if s.isReverse then ordering.swap else ordering

/-- How lines are sorted. -/
structure Plan where
  keys : List Key := []
  style : Style := {}
  separator? : Option Char := none
  isStable : Bool := false
  isUnique : Bool := false

/-- Compares lines by their keys. -/
def Plan.compareKeys (p : Plan) (a b : List Char) : Ordering :=
  if p.keys.isEmpty then p.style.compare a b
  else
    p.keys.foldl (fun (o : Ordering) k =>
      if o == .eq then
        let s := k.style?.getD p.style
        s.compare (k.part s p.separator? a) (k.part s p.separator? b)
      else o) .eq

/-- Compares lines. -/
def Plan.compare (p : Plan) (a b : List Char) : Ordering :=
  match p.compareKeys a b with
  | .eq =>
    if p.isStable || p.isUnique then .eq
    else if p.style.isReverse then (compareTexts a b).swap
    else compareTexts a b
  | o => o

/-- The first of lines that follow each other with the same keys. -/
def Plan.distinct (p : Plan) : List (List Char) → List (List Char)
  | [] => []
  | [x] => [x]
  | x :: y :: rest =>
    if p.compareKeys x y == .eq then p.distinct (x :: rest) else x :: p.distinct (y :: rest)
termination_by lines => lines.length

/-- Sorted lines. -/
def Plan.sorted (p : Plan) (lines : List (List Char)) : List (List Char) :=
  let lines := lines.mergeSort fun a b => p.compare a b != .gt
  if p.isUnique then p.distinct lines else lines

/-- The first line that stands behind one that it should be in front of. -/
def Plan.disorder? (p : Plan) : (number : Nat) → List (List Char) → Option (Nat × List Char)
  | n, x :: y :: rest =>
    let o := p.compare x y
    if o == .gt || (p.isUnique && o == .eq) then some (n + 1, y) else p.disorder? (n + 1) (y :: rest)
  | _, _ => none

end Unnest.Host.Sorting

namespace Unnest.Host.Utility

open Work Sorting

/-- An old way of writing keys, in the new one. -/
def oldKeys : List String → List String
  | arg :: next :: rest =>
    match arg.toList with
    | '+' :: c :: cs =>
      if c.isDigit then
        let place (cs : List Char) (isEnd : Bool) : String :=
          match readPlace cs with
          | some (n, m?, letters) =>
            let first := if isEnd && m?.isNone then n else n + 1
            toString first ++ m?.elim "" (fun m => "." ++ toString (if isEnd then m else m + 1)) ++ String.ofList letters
          | none => String.ofList cs
        match next.toList with
        | '-' :: d :: ds =>
          if d.isDigit then ("-k" ++ place (c :: cs) false ++ "," ++ place (d :: ds) true) :: oldKeys rest
          else ("-k" ++ place (c :: cs) false) :: oldKeys (next :: rest)
        | _ => ("-k" ++ place (c :: cs) false) :: oldKeys (next :: rest)
      else arg :: oldKeys (next :: rest)
    | _ => arg :: oldKeys (next :: rest)
  | args => args

/-- Sorts lines. -/
def sort : Utility := fun args => do
  let g ← options
    { letters := "bcCdfghik:mMno:rRsS:t:T:uVz", failure := 2
      words := [("ignore-leading-blanks", .nothing, "b"), ("dictionary-order", .nothing, "d"),
        ("ignore-case", .nothing, "f"), ("general-numeric-sort", .nothing, "g"),
        ("ignore-nonprinting", .nothing, "i"), ("month-sort", .nothing, "M"),
        ("human-numeric-sort", .nothing, "h"), ("numeric-sort", .nothing, "n"), ("random-sort", .nothing, "R"),
        ("reverse", .nothing, "r"), ("sort", .value, "sort"), ("version-sort", .nothing, "V"),
        ("check", .attached, "check"), ("key", .value, "k"), ("merge", .nothing, "m"), ("output", .value, "o"),
        ("stable", .nothing, "s"), ("buffer-size", .value, "S"), ("field-separator", .value, "t"),
        ("temporary-directory", .value, "T"), ("unique", .nothing, "u"), ("zero-terminated", .nothing, "z"),
        ("parallel", .value, "parallel"), ("batch-size", .value, "batch"), ("debug", .nothing, "debug")] }
    (oldKeys args)
  let mut style : Style := {}
  for (o, _) in g.options do
    match o.toList with
    | [c] => style := (style.add? false c).getD style
    | _ => pure ()
  match g.value? "sort" with
  | some "numeric" => style := { style with measure := .number }
  | some "general-numeric" => style := { style with measure := .general }
  | some "human-numeric" => style := { style with measure := .size }
  | some "month" => style := { style with measure := .month }
  | some "version" => style := { style with measure := .version }
  | _ => pure ()
  let mut keys : List Key := []
  for text in g.values "k" do
    match readKey? text with
    | some k => keys := keys ++ [k]
    | none => fail 2 s!"invalid field specification {Quoting.literal text}"
  let separator? ←
    match g.value? "t" with
    | none => pure none
    | some "\\0" => pure (some '\x00')
    | some text =>
      match text.toList with
      | [c] => pure (some c)
      | [] => fail 2 "empty tab"
      | _ => fail 2 s!"multi-character tab {Quoting.literal text}"
  let p : Plan := { keys, style, separator?, isStable := g.has "s", isUnique := g.has "u" }
  let ending := if g.has "z" then '\x00' else '\n'
  let checks := g.has "c" || g.has "C" || g.has "check"
  match checks, g.operands with
  | true, _ :: extra :: _ =>
    fail 2 s!"extra operand {Quoting.always extra} not allowed with -c"
  | _, _ => pure ()
  let mut parts : List (List (List Char)) := []
  for name in orInput g.operands do
    match ← readOperand name with
    | .ok text =>
      let pieces := Octets.split (· == ending) text
      let pieces := if pieces.getLastD "" == "" then pieces.dropLast else pieces
      parts := pieces.map String.toList :: parts
    | .error .isDirectory => fail 2 s!"read failed: {Quoting.ifNeeded name}: {Fault.isDirectory.text}"
    | .error f => fail 2 s!"cannot read: {Quoting.ifNeeded name}: {f.text}"
  let lines := parts.reverse.flatten
  if checks then
    match p.disorder? 1 lines with
    | none => return 0
    | some (n, line) => do
      let isSilent := g.has "C" || g.value? "check" == some "silent" || g.value? "check" == some "quiet"
      if !isSilent then
        let name := (orInput g.operands).headD "-"
        let line := String.ofList line
        complain s!"{Quoting.ifNeeded name}:{n}: disorder: {line}"
      return 1
  let text := String.join ((p.sorted lines).map fun l => (String.ofList l).push ending)
  match g.value? "o" with
  | none => print text
  | some name =>
    match ← writePath name text .write with
    | .ok () => pure ()
    | .error f => fail 2 s!"open failed: {Quoting.ifNeeded name}: {f.text}"
  return 0

/-! ## Repeated lines -/

/-- The runs of lines that are the same in what is compared of them. -/
def runs (key : String → String) : List String → List (List String)
  | [] => []
  | line :: lines =>
    match runs key lines with
    | (next :: others) :: rest =>
      if key line = key next then (line :: next :: others) :: rest else [line] :: (next :: others) :: rest
    | rest => [line] :: rest

/-- A line without its first fields and characters. -/
def skipFields (fields chars : Nat) (cs : List Char) : List Char :=
  let rest := (List.range fields).foldl (fun cs _ =>
    (cs.dropWhile Octets.isBlank).dropWhile fun c => !Octets.isBlank c) cs
  rest.drop chars

/-- Prints lines, of the same ones in a row only one. -/
def unique : Utility := fun args => do
  let g ← options
    { letters := "cdDf:is:uw:z"
      words := [("count", .nothing, "c"), ("repeated", .nothing, "d"), ("all-repeated", .attached, "D"),
        ("skip-fields", .value, "f"), ("group", .attached, "group"), ("ignore-case", .nothing, "i"),
        ("skip-chars", .value, "s"), ("unique", .nothing, "u"), ("zero-terminated", .nothing, "z"),
        ("check-chars", .value, "w")] } args
  let number (o : String) : Nat := ((g.value? o).bind Numeral.decimal?).getD 0
  let key (line : String) : String :=
    let cs := skipFields (number "f") (number "s") line.toList
    let cs := if g.has "w" then cs.take (number "w") else cs
    String.ofList (if g.has "i" then cs.map Char.toLower else cs)
  let (input, output?) ←
    match g.operands with
    | [] => pure ("-", none)
    | [input] => pure (input, none)
    | [input, output] => pure (input, some output)
    | _ :: _ :: extra :: _ => extraOperand extra
  let text ←
    match ← readOperand input with
    | .ok text => pure text
    | .error .isDirectory => fail 1 s!"error reading {Quoting.always input}"
    | .error f => fail 1 s!"{Quoting.ifNeeded input}: {f.text}"
  let ending := if g.has "z" then '\x00' else '\n'
  let pieces := Octets.split (· == ending) text
  let lines := if pieces.getLastD "" == "" then pieces.dropLast else pieces
  let shown := (runs key lines).flatMap fun run =>
    let first := run.headD ""
    let isRepeated := run.length > 1
    if g.has "D" then (if isRepeated then run else [])
    else if g.has "d" && !isRepeated then []
    else if g.has "u" && isRepeated then []
    else if g.has "c" then [Octets.padLeft ' ' 7 (toString run.length) ++ " " ++ first]
    else [first]
  let text := String.join (shown.map (·.push ending))
  match output? with
  | none | some "-" => print text
  | some name =>
    match ← writePath name text .write with
    | .ok () => pure ()
    | .error f => fail 1 s!"{Quoting.ifNeeded name}: {f.text}"
  return 0

end Unnest.Host.Utility
