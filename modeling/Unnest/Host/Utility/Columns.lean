import Unnest.Host.Pattern
import Unnest.Host.Utility.Show

/-!
# Columns and characters

Programs that take columns out of lines, put lines side by side, compare sorted lines,
and exchange characters.
-/

namespace Unnest.Host.Utility

open Work

/-! ## Cutting -/

/-- Ranges of positions from one on; one without an end goes on forever. -/
def readRanges (text : String) : Option (List (Nat × Option Nat)) :=
  (Octets.split (fun c => c == ',' || c == ' ') text).mapM fun part =>
    match Octets.cut '-' part with
    | (first, none) => do
      let n ← Numeral.decimal? first
      if n = 0 then none else some (n, some n)
    | (first, some last) => do
      let n ← if first = "" then some 1 else Numeral.decimal? first
      let m? ← if last = "" then some none else (Numeral.decimal? last).map some
      if n = 0 || (first = "" && last = "") || m?.any (· < n) then none else some (n, m?)

/-- Whether a position is in one of the ranges. -/
def isSelected (ranges : List (Nat × Option Nat)) (n : Nat) : Bool :=
  ranges.any fun (first, last?) => decide (first ≤ n) && last?.all fun last => decide (n ≤ last)

/-- The starts of selected runs of positions, which are where a delimiter goes. -/
def selectedRuns (ranges : List (Nat × Option Nat)) (isComplement : Bool) (cs : List Char) : List (List Char) :=
  let (runs, _) := (cs.zip (List.range cs.length)).foldl
    (fun ((runs, isOpen) : List (List Char) × Bool) (c, i) =>
      let starts := ranges.any fun (first, _) => first = i + 1
      if isSelected ranges (i + 1) != isComplement then
        match runs, isOpen && !(starts && !isComplement && !isSelected ranges i) with
        | run :: rest, true => ((c :: run) :: rest, true)
        | runs, _ => ([c] :: runs, true)
      else (runs, false)) ([], false)
  (runs.map List.reverse).reverse

/-- Prints parts of each line. -/
def cut : Utility := fun args => do
  let g ← options
    { letters := "b:c:d:f:nsz"
      words := [("bytes", .value, "b"), ("characters", .value, "c"), ("delimiter", .value, "d"),
        ("fields", .value, "f"), ("only-delimited", .nothing, "s"), ("complement", .nothing, "complement"),
        ("output-delimiter", .value, "output"), ("zero-terminated", .nothing, "z")] } args
  let lists := ["b", "c", "f"].flatMap fun o => (g.values o).map fun v => (o, v)
  let (kind, list) ←
    match lists with
    | [] => misuse 1 "you must specify a list of bytes, characters, or fields"
    | [one] => pure one
    | _ => misuse 1 "only one list may be specified"
  if g.has "d" && kind != "f" then
    misuse 1 "an input delimiter may be specified only when operating on fields"
  let delimiter ←
    match (g.value? "d").map String.toList with
    | none => pure '\t'
    | some [c] => pure c
    | some [] => pure '\x00'
    | some _ => misuse 1 "the delimiter must be a single character"
  let ranges ←
    match readRanges list with
    | some ranges => pure ranges
    | none =>
      if kind = "f" then misuse 1 s!"invalid field value {Quoting.literal list}"
      else misuse 1 s!"invalid byte or character range"
  let ending := if g.has "z" then '\x00' else '\n'
  let isComplement := g.has "complement"
  let well ← withEach g.operands fun _ text => do
    let pieces := Octets.split (· == ending) text
    let lines := if pieces.getLastD "" == "" then pieces.dropLast else pieces
    let shown := lines.filterMap fun line =>
      if kind = "f" then
        if !Octets.has line delimiter then (if g.has "s" then none else some line)
        else
          let fields := Octets.split (· == delimiter) line
          let kept := (fields.zip (List.range fields.length)).filterMap fun (f, i) =>
            if isSelected ranges (i + 1) != isComplement then some f else none
          some (((g.value? "output").getD delimiter.toString).intercalate kept)
      else
        let runs := selectedRuns ranges isComplement line.toList
        some (((g.value? "output").getD "").intercalate (runs.map String.ofList))
    print (String.join (shown.map (·.push ending)))
  return code well

/-! ## Side by side -/

/-- The characters of a list of delimiters; an empty one is none. -/
def delimiters : List Char → List String
  | '\\' :: c :: cs =>
    (match c with
      | 'n' => "\n"
      | 't' => "\t"
      | '0' => ""
      | c => c.toString) :: delimiters cs
  | c :: cs => c.toString :: delimiters cs
  | [] => []

/-- Texts with delimiters between them, which are used in turn. -/
def joinedBy (delimiters : List String) : List String → String
  | [] => ""
  | first :: rest =>
    let count := max 1 delimiters.length
    first ++ String.join ((rest.zip (List.range rest.length)).map fun (s, i) =>
      (delimiters[i % count]?).getD "" ++ s)

/-- Prints the lines of files side by side, or those of each file on one line. -/
def paste : Utility := fun args => do
  let g ← options
    { letters := "d:sz"
      words := [("delimiters", .value, "d"), ("serial", .nothing, "s"), ("zero-terminated", .nothing, "z")] } args
  let between := delimiters ((g.value? "d").getD "\t").toList
  let mut columns : List (List String) := []
  let mut well := true
  for name in orInput g.operands do
    match ← readOperand name with
    | .ok text => columns := columns ++ [Octets.lines text]
    | .error f =>
      if g.has "s" then
        complain s!"{Quoting.ifNeeded name}: {f.text}"
        well := false
      else fail 1 s!"{Quoting.ifNeeded name}: {f.text}"
  if g.has "s" then print (Octets.ofLines (columns.map (joinedBy between)))
  else
    let height := (columns.map List.length).foldl max 0
    print (Octets.ofLines ((List.range height).map fun i =>
      joinedBy between (columns.map fun column => (column[i]?).getD "")))
  return code well

/-! ## Sorted files -/

/-- The lines of two sorted lists, with the column that each belongs to. -/
def common : (steps : Nat) → List String → List String → List (Nat × String)
  | 0, _, _ => []
  | _, [], ys => ys.map (2, ·)
  | _, xs, [] => xs.map (1, ·)
  | steps + 1, x :: xs, y :: ys =>
    if x < y then (1, x) :: common steps xs (y :: ys)
    else if y < x then (2, y) :: common steps (x :: xs) ys
    else (3, x) :: common steps xs ys

/-- Whether lines are in order. -/
def isInOrder : List String → Bool
  | x :: y :: rest => decide (x ≤ y) && isInOrder (y :: rest)
  | _ => true

/-- A file that has to be readable. -/
def requireText (name : String) : Work String := do
  match ← readOperand name with
  | .ok text => return text
  | .error f => fail 1 s!"{Quoting.ifNeeded name}: {f.text}"

/-- Prints the lines that only one of two sorted files has, and those that both have. -/
def commonLines : Utility := fun args => do
  let g ← options
    { letters := "123z"
      words := [("output-delimiter", .value, "output"), ("check-order", .nothing, "check"),
        ("nocheck-order", .nothing, "nocheck"), ("total", .nothing, "total")] } args
  let (a, b) ←
    match g.operands with
    | [a, b] => pure (a, b)
    | _ :: _ :: extra :: _ => extraOperand extra
    | operands => missingOperand operands
  let xs := Octets.lines (← requireText a)
  let ys := Octets.lines (← requireText b)
  let delimiter := (g.value? "output").getD "\t"
  let lead (column : Nat) : String :=
    String.join (((List.range (column - 1)).filter fun i => !g.has (toString (i + 1))).map fun _ => delimiter)
  let shown := (common (xs.length + ys.length + 1) xs ys).filter fun (c, _) => !g.has (toString c)
  print (Octets.ofLines (shown.map fun (c, line) => lead c ++ line))
  if g.has "nocheck" then return 0
  let mut well := true
  for (lines, n) in [(xs, 1), (ys, 2)] do
    if !isInOrder lines then
      complain s!"file {n} is not in sorted order"
      well := false
  if !well then complain "input is not in sorted order"
  return code well

/-- The fields of a line. -/
def fieldsOf (separator? : Option Char) (line : String) : List String :=
  match separator? with
  | some c => Octets.split (· == c) line
  | none => Octets.words Octets.isBlank line

/-- Prints the lines of two sorted files that agree in one field, joined. -/
def joinLines : Utility := fun args => do
  let g ← options
    { letters := "1:2:a:e:ij:o:t:v:z", words := [("ignore-case", .nothing, "i"), ("header", .nothing, "header"),
        ("check-order", .nothing, "check"), ("nocheck-order", .nothing, "nocheck")] } args
  let (a, b) ←
    match g.operands with
    | [a, b] => pure (a, b)
    | _ :: _ :: extra :: _ => extraOperand extra
    | operands => missingOperand operands
  let separator? := (g.value? "t").bind fun t => t.toList.head?
  let number (o : String) : Nat :=
    (((g.value? o).orElse fun _ => g.value? "j").bind Numeral.decimal?).getD 1
  let gap := (separator?.getD ' ').toString
  let rows (text : String) (field : Nat) : List (String × List String) :=
    (Octets.lines text).map fun line =>
      let fields := fieldsOf separator? line
      let key := (fields[field - 1]?).getD ""
      (if g.has "i" then key.map Char.toLower else key, fields)
  let xs := rows (← requireText a) (number "1")
  let ys := rows (← requireText b) (number "2")
  let empty := (g.value? "e").getD ""
  let orEmpty (s : String) : String := if s = "" then empty else s
  let without (field : Nat) (fields : List String) : List String :=
    ((fields.zip (List.range fields.length)).filter fun p => p.2 + 1 != field).map (·.1)
  let line (key : String) (x y : List String) : String :=
    match g.value? "o" with
    | some form =>
      if form = "auto" then gap.intercalate (key :: (without (number "1") x ++ without (number "2") y))
      else
        gap.intercalate ((Octets.words (fun c => c == ',' || c == ' ') form).map fun part =>
          match Octets.cut '.' part with
          | (file, some n) =>
            orEmpty (((if file = "1" then x else y)[((Numeral.decimal? n).getD 1) - 1]?).getD "")
          | _ => key)
    | none => gap.intercalate (key :: (without (number "1") x ++ without (number "2") y))
  let alone := (g.values "a") ++ (g.values "v")
  let pairs := if g.has "v" then [] else xs.flatMap fun (k, x) =>
    (ys.filter fun y => y.1 == k).map fun (_, y) => (k, line ((x[number "1" - 1]?).getD "") x y)
  let onlyX := if alone.contains "1" then
      (xs.filter fun x => !ys.any fun y => y.1 == x.1).map fun (k, x) => (k, line ((x[number "1" - 1]?).getD "") x [])
    else []
  let onlyY := if alone.contains "2" then
      (ys.filter fun y => !xs.any fun x => x.1 == y.1).map fun (k, y) => (k, line ((y[number "2" - 1]?).getD "") [] y)
    else []
  let all := (pairs ++ onlyX ++ onlyY).mergeSort fun p q => decide (p.1 ≤ q.1)
  print (Octets.ofLines (all.map (·.2)))
  return 0

/-! ## Exchanging characters -/

/-- A member of a list of characters. -/
inductive Letters where
  | range (first last : Char)
  | named (name : String)
  /-- A character a number of times; nought fills the list up. -/
  | repeated (c : Char) (count : Nat)
  deriving Repr

/-- The characters of a list with the escapes read. -/
def unescaped : (steps : Nat) → List Char → List (Char × Bool)
  | 0, _ => []
  | _, [] => []
  | steps + 1, '\\' :: cs =>
    let digits := (cs.take 3).takeWhile fun c => (Numeral.digitOf? 8 c).isSome
    match Numeral.inBase? 8 digits with
    | some n => (Char.ofNat (n % 256), true) :: unescaped steps (cs.drop digits.length)
    | none =>
      match cs with
      | [] => [('\\', true)]
      | c :: cs =>
        let escaped :=
          match c with
          | 'a' => '\x07'
          | 'b' => '\x08'
          | 'f' => '\x0c'
          | 'n' => '\n'
          | 'r' => '\r'
          | 't' => '\t'
          | 'v' => '\x0b'
          | c => c
        (escaped, true) :: unescaped steps cs
  | steps + 1, c :: cs => (c, false) :: unescaped steps cs

/-- The name of a class between signs, and what follows. -/
def className (sign : Char) : List (Char × Bool) → Option (List Char × List (Char × Bool))
  | (c, false) :: (']', false) :: rest =>
    if c = sign then some ([], rest)
    else (className sign ((']', false) :: rest)).map fun (name, rest) => (c :: name, rest)
  | (c, _) :: rest => (className sign rest).map fun (name, rest) => (c :: name, rest)
  | [] => none

/-- Reads a list of characters. -/
def readSetOf : (steps : Nat) → List (Char × Bool) → Except String (List Letters)
  | 0, _ => .ok []
  | _, [] => .ok []
  | steps + 1, (c, isEscaped) :: rest => do
    let special? : Option (Except String (Letters × List (Char × Bool))) :=
      if c != '[' || isEscaped then none
      else
        match rest with
        | (':', false) :: more =>
          (className ':' more).map fun (name, rest) =>
            let name := String.ofList name
            if (octetClass? name).isSome then .ok (.named name, rest)
            else .error s!"invalid character class {Quoting.always name}"
        | ('=', false) :: more =>
          (className '=' more).map fun (name, rest) =>
            match name with
            | [d] => .ok (.range d d, rest)
            | _ =>
              let name := String.ofList name
              .error s!"{name}: equivalence class operand must be a single character"
        | (d, _) :: ('*', false) :: more =>
          let digits := (more.takeWhile fun p => p.1.isDigit).map (·.1)
          match more.drop digits.length with
          | (']', false) :: rest =>
            let count := (Numeral.inBase? (if digits.head? == some '0' then 8 else 10) digits).getD 0
            some (.ok (.repeated d count, rest))
          | _ => none
        | _ => none
    match special? with
    | some (.error e) => throw e
    | some (.ok (letters, rest)) => return letters :: (← readSetOf steps rest)
    | none =>
      match rest with
      | ('-', false) :: (d, _) :: more =>
        if d.toNat < c.toNat then
          throw s!"range-endpoints of '{c}-{d}' are in reverse collating sequence order"
        else return .range c d :: (← readSetOf steps more)
      | _ => return .range c c :: (← readSetOf steps rest)

/-- All octets in order. -/
def allOctets : List Char := (List.range 256).map Char.ofNat

/-- The characters of a list; a repeated one without a count fills the list up to a
size. -/
def lettersOf (size : Nat) (set : List Letters) : List Char :=
  let fixed := (set.map fun l =>
    match l with
    | .range a b => b.toNat - a.toNat + 1
    | .named name => (allOctets.filter fun c => ((octetClass? name).getD fun _ => false) c).length
    | .repeated _ n => n).foldl (· + ·) 0
  set.flatMap fun l =>
    match l with
    | .range a b => (List.range (b.toNat - a.toNat + 1)).map fun i => Char.ofNat (a.toNat + i)
    | .named name => allOctets.filter ((octetClass? name).getD fun _ => false)
    | .repeated c n => List.replicate (if n = 0 then size - fixed else n) c

/-- A text in which a kind of characters does not follow itself. -/
def squeezed (isSqueezed : Char → Bool) (text : String) : String :=
  let (cs, _) := text.toList.foldl (fun ((done, last?) : List Char × Option Char) c =>
    if last? == some c && isSqueezed c then (done, last?) else (c :: done, some c)) ([], none)
  String.ofList cs.reverse

/-- Exchanges, deletes or squeezes characters of what it reads. -/
def exchange : Utility := fun args => do
  let g ← options
    { letters := "cCdst", isOrdered := true
      words := [("complement", .nothing, "c"), ("delete", .nothing, "d"), ("squeeze-repeats", .nothing, "s"),
        ("truncate-set1", .nothing, "t")] } args
  let isComplement := g.has "c" || g.has "C"
  let deletes := g.has "d"
  let squeezes := g.has "s"
  let most := if deletes && !squeezes then 1 else 2
  let least := if deletes == squeezes then 2 else 1
  if g.operands.isEmpty then misuse 1 "missing operand"
  if g.operands.length < least then
    let last := g.operands.getLastD ""
    complain s!"missing operand after {Quoting.always last}"
    if deletes && squeezes then tell "Two strings must be given when both deleting and squeezing repeats."
    else tell "Two strings must be given when translating."
    let name := (← get).name
    tell s!"Try '{name} --help' for more information."
    quit 1
  if g.operands.length > most then
    let extra := (g.operands[most]?).getD ""
    complain s!"extra operand {Quoting.always extra}"
    if most = 1 then tell "Only one string may be given when deleting without squeezing repeats."
    let name := (← get).name
    tell s!"Try '{name} --help' for more information."
    quit 1
  let read (text : String) : Work (List Letters) := do
    match readSetOf (text.length + 1) (unescaped (text.length + 1) text.toList) with
    | .ok set => return set
    | .error e => fail 1 e
  let first ← read (g.operands.headD "")
  let second ← read ((g.operands[1]?).getD "")
  let listed := lettersOf 0 first
  let from_ := if isComplement then allOctets.filter fun c => !listed.contains c else listed
  let text ←
    match ← drain 0 with
    | .ok text => pure text
    | .error f => fail 1 s!"read error: {f.text}"
  if deletes then
    let kept := String.ofList (text.toList.filter fun c => !from_.contains c)
    let set := lettersOf 0 second
    print (if squeezes then squeezed set.contains kept else kept)
  else if g.operands.length = 1 then print (squeezed from_.contains text)
  else
    let into := lettersOf from_.length second
    if into.isEmpty && !g.has "t" then fail 1 "when not truncating set1, string2 must be non-empty"
    let from_ := if g.has "t" then from_.take into.length else from_
    let into := into ++ List.replicate (from_.length - into.length) (into.getLastD 'x')
    let pairs := from_.zip into
    -- of several exchanges of a character the last one counts
    let table := allOctets.map fun c => ((pairs.reverse.find? fun p => p.1 == c).map (·.2)).getD c
    let table := table.toArray
    let changed := text.map fun c => (table[c.toNat]?).getD c
    print (if squeezes then squeezed into.contains changed else changed)
  return 0

end Unnest.Host.Utility
