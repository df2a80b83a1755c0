import Unnest.Host.Utility.Basic

/-!
# Showing files

Programs that print what files hold, whole or in part, as it is or line by line in
another form.  Each of them goes through its operands in order, a dash or no operand at
all being what the program reads, and goes on where an operand cannot be read.
-/

namespace Unnest.Host

namespace Work

/-- The operands, or a dash if there are none. -/
def orInput (operands : List String) : List String := if operands.isEmpty then ["-"] else operands

/-- Does something with each file that can be read, and complains about the others;
whether all could be read. -/
def withEach (operands : List String) (act : (name text : String) → Work Unit) : Work Bool :=
  forEach (orInput operands) fun name => do
    match ← readOperand name with
    | .ok text => do
      act name text
      return true
    | .error f => do
      complain s!"{Quoting.ifNeeded name}: {f.text}"
      return false

/-- All that files hold, one after the other. -/
def gather (operands : List String) : Work (String × Bool) := do
  let mut texts : List String := []
  let mut well := true
  for name in orInput operands do
    match ← readOperand name with
    | .ok text => texts := text :: texts
    | .error f =>
      complain s!"{Quoting.ifNeeded name}: {f.text}"
      well := false
  return (String.join texts.reverse, well)

/-- A size from the value of an option. -/
def sizeOr (what text : String) : Work Nat := do
  match Numeral.size? text with
  | some n => return n
  | none => fail 1 s!"invalid {what}: {Quoting.literal text}"

end Work

namespace Utility

open Work

/-! ## Whole files -/

/-- How an octet is shown that cannot be seen. -/
def visible (c : Char) : String :=
  let low (c : Char) : String :=
    if c.toNat < 32 then "^" ++ (Char.ofNat (c.toNat + 64)).toString
    else if c.toNat = 127 then "^?"
    else c.toString
  if c.toNat < 128 then low c else "M-" ++ low (Char.ofNat (c.toNat - 128))

/-- How the lines of a text are shown. -/
structure LineStyle where
  numbersAll : Bool := false
  numbersFilled : Bool := false
  marksEnds : Bool := false
  squeezes : Bool := false
  marksTabs : Bool := false
  isVisible : Bool := false

/-- Lines in a style; `number` is that of the next line, and `isAfterEmpty` says whether
an empty one was just shown. -/
def styled (s : LineStyle) : (number : Nat) → (isAfterEmpty : Bool) → List String → List String
  | _, _, [] => []
  | number, isAfterEmpty, line :: lines =>
    let isEmpty := line = "\n"
    if isEmpty && s.squeezes && isAfterEmpty then styled s number true lines
    else
      let isNumbered := if s.numbersFilled then !isEmpty else s.numbersAll
      let shown := String.join (line.toList.map fun c =>
        if c = '\n' then (if s.marksEnds then "$\n" else "\n")
        else if c = '\t' then (if s.marksTabs then "^I" else "\t")
        else if s.isVisible then visible c
        else c.toString)
      let lead := if isNumbered then Octets.padLeft ' ' 6 (toString number) ++ "\t" else ""
      (lead ++ shown) :: styled s (if isNumbered then number + 1 else number) isEmpty lines

/-- Whether a file is the one that is written to, and still has something to read. -/
def isOutput (name : String) : Work Bool := do
  let t ← get
  let m := t.machine
  let source : Option (Nat × Nat) :=
    if name = "-" then
      match t.process.opening? 0 with
      | some o =>
        match (m.opening o).channel with
        | .node i => some (i, (m.opening o).offset)
        | _ => none
      | none => none
    else (m.files.find? t.process.directory name).map fun i => (i, 0)
  match source, (t.process.opening? 1).map fun o => (m.opening o).channel with
  | some (i, offset), some (.node j) =>
    return i = j && (m.files.get i).isFile && decide (offset < (m.files.get i).size)
  | _, _ => return false

/-- Prints files one after the other. -/
def concatenate : Utility := fun args => do
  let g ← options
    { letters := "AbeEnstTuv"
      words := [("show-all", .nothing, "A"), ("number-nonblank", .nothing, "b"), ("show-ends", .nothing, "E"),
        ("number", .nothing, "n"), ("squeeze-blank", .nothing, "s"), ("show-tabs", .nothing, "T"),
        ("show-nonprinting", .nothing, "v")] } args
  let has (os : List String) : Bool := os.any g.has
  let style : LineStyle :=
    { numbersAll := g.has "n", numbersFilled := g.has "b", marksEnds := has ["E", "e", "A"]
      squeezes := g.has "s", marksTabs := has ["T", "t", "A"], isVisible := has ["v", "e", "t", "A"] }
  if g.options.all fun o => o.1 = "u" then
    let well ← forEach (orInput g.operands) fun name => do
      if ← isOutput name then
        complain s!"{Quoting.ifNeeded name}: input file is output file"
        return false
      match ← readOperand name with
      | .ok text => do
        print text
        return true
      | .error f => do
        complain s!"{Quoting.ifNeeded name}: {f.text}"
        return false
    return code well
  else
    let (text, well) ← gather g.operands
    print (String.join (styled style 1 false (Octets.rawLines text)))
    return code well

/-- Prints the lines of files from the last on. -/
def concatenateBackwards : Utility := fun args => do
  let g ← options
    { letters := "brs:"
      words := [("before", .nothing, "b"), ("regex", .nothing, "r"), ("separator", .value, "s")] } args
  let separator := ((g.value? "s").bind (·.toList.head?)).getD '\n'
  let well ← withEach g.operands fun _ text => do
    let pieces := Octets.split (· == separator) text
    let records := (pieces.dropLast.map (·.push separator)) ++
      (if pieces.getLastD "" == "" then [] else [pieces.getLastD ""])
    print (String.join records.reverse)
  return code well

/-- Prints each line backwards. -/
def reverseLines : Utility := fun args => do
  let g ← options { letters := "0V" } args
  let well ← withEach g.operands fun _ text => do
    let lines := (Octets.rawLines text).map fun line =>
      let cs := line.toList
      if cs.getLast? == some '\n' then String.ofList (cs.dropLast.reverse ++ ['\n'])
      else String.ofList cs.reverse
    print (String.join lines)
  return code well

/-- Prints what it reads, and writes it into files as well. -/
def branch : Utility := fun args => do
  let g ← options
    { letters := "aip", words := [("append", .nothing, "a"), ("ignore-interrupts", .nothing, "i"),
        ("output-error", .attached, "p")] } args
  let access := if g.has "a" then Access.append else .write
  -- the files are opened before anything is read
  let mut outputs : List (String × Nat) := []
  let mut well := true
  for name in g.operands do
    let t ← get
    match t.machine.openPath t.process name access with
    | .ok (o, m) =>
      setMachine m
      outputs := outputs ++ [(name, o)]
    | .error f =>
      complain s!"{Quoting.ifNeeded name}: {f.text}"
      well := false
  let text ←
    match ← drain 0 with
    | .ok text => pure text
    | .error f => fail 1 s!"read error: {f.text}"
  print text
  for (name, o) in outputs do
    match (← machine).write o text with
    | .ok m => setMachine m
    | .error f =>
      complain s!"{Quoting.ifNeeded name}: {f.text}"
      well := false
  return code well

/-- How often a line is repeated that has no end. -/
def endlessly : Nat := Nat.pow 2 12

/-- Prints a line again and again, until nobody reads it. -/
def affirm : Utility := fun args => do
  let g ← options {} args
  let line := (if g.operands.isEmpty then "y" else " ".intercalate g.operands) ++ "\n"
  let block := String.join (List.replicate 64 line)
  for _ in List.range endlessly do
    print block
  -- a reader that takes everything without an end
  throw (.signal ⟨13⟩)

/-! ## Parts of files -/

/-- Which part of a file is asked for. -/
structure Part where
  count : Nat
  countsOctets : Bool := false
  /-- Whether the count is that of the other part. -/
  isRest : Bool := false

/-- The first lines or octets. -/
def firstPart (p : Part) (separator : Char) (text : String) : String :=
  if p.countsOctets then Octets.take (if p.isRest then text.length - p.count else p.count) text
  else
    let pieces := Octets.split (· == separator) text
    let lines := (pieces.dropLast.map (·.push separator)) ++
      (if pieces.getLastD "" == "" then [] else [pieces.getLastD ""])
    String.join (lines.take (if p.isRest then lines.length - p.count else p.count))

/-- The last lines or octets; of the rest the first is number one. -/
def lastPart (p : Part) (separator : Char) (text : String) : String :=
  if p.countsOctets then Octets.drop (if p.isRest then p.count - 1 else text.length - p.count) text
  else
    let pieces := Octets.split (· == separator) text
    let lines := (pieces.dropLast.map (·.push separator)) ++
      (if pieces.getLastD "" == "" then [] else [pieces.getLastD ""])
    String.join (lines.drop (if p.isRest then p.count - 1 else lines.length - p.count))

/-- A count in front of which a sign says that the other part is meant. -/
def readPart (restSign : Char) (countsOctets : Bool) (what text : String) : Work Part := do
  match text.toList with
  | c :: cs =>
    let digits := if c = '+' || c = '-' then String.ofList cs else text
    match Numeral.size? digits with
    | some count => return { count, countsOctets, isRest := c = restSign }
    | none => fail 1 s!"invalid number of {what}: {Quoting.literal text}"
  | [] => fail 1 s!"invalid number of {what}: {Quoting.literal text}"

/-- An argument that is a sign and a count, as an option with that count. -/
def oldCount (signs : List Char) (arg : String) : Option String :=
  match arg.toList with
  | c :: d :: cs =>
    if signs.contains c && d.isDigit then
      let digits := (d :: cs).takeWhile Char.isDigit
      let sign := if c = '+' then "+" else ""
      match (d :: cs).drop digits.length with
      | [] => some ("-n" ++ sign ++ String.ofList digits)
      | ['c'] => some ("-c" ++ sign ++ String.ofList digits)
      | _ => none
    else none
  | _ => none

/-- The options of programs that print a part of files. -/
def partOptions : OptionTable :=
  { letters := "c:n:qvzfF"
    words := [("bytes", .value, "c"), ("lines", .value, "n"), ("quiet", .nothing, "q"), ("silent", .nothing, "q"),
      ("verbose", .nothing, "v"), ("zero-terminated", .nothing, "z"), ("follow", .attached, "f")] }

/-- Prints a part of each file, with the names of the files if there are several. -/
def partOf (restSign : Char) (verb : String) (cut : Part → Char → String → String) (oldSigns : List Char) :
    Utility := fun args => do
  let args :=
    match args with
    | arg :: rest => ((oldCount oldSigns arg).getD arg) :: rest
    | [] => []
  let g ← options partOptions args
  let part ←
    match g.last? ["c", "n"] with
    | some "c" => readPart restSign true "bytes" ((g.value? "c").getD "")
    | some _ => readPart restSign false "lines" ((g.value? "n").getD "")
    | none => pure { count := 10 : Part }
  let separator := if g.has "z" then '\x00' else '\n'
  let files := orInput g.operands
  let isNamed : Bool :=
    match g.last? ["q", "v"] with
    | some o => o == "v"
    | none => decide (files.length > 1)
  let mut well := true
  let mut isFirst := true
  for name in files do
    let header := (if isFirst then "" else "\n") ++
      "==> " ++ (if name = "-" then "standard input" else name) ++ " <==\n"
    let shown := if name = "-" then "'standard input'" else Quoting.always name
    if name = "-" then
      if isNamed then print header
      isFirst := false
      let t ← get
      match t.process.opening? 0 with
      | none =>
        complain s!"cannot {verb} {shown}: {Fault.badDescriptor.text}"
        well := false
      | some o =>
        match t.machine.rest o with
        | .error f =>
          complain s!"error reading {shown}: {f.text}"
          well := false
        | .ok text =>
          let shownText := cut part separator text
          let isFile := (t.machine.opening o).channel matches .node _
          -- what a file holds behind the part can still be read
          let used := if isFile && restSign = '-' then shownText.length else min text.length 8192
          setMachine (t.machine.consume o (if restSign = '-' then max used shownText.length else text.length))
          print shownText
    else
      let t ← get
      match t.machine.files.find t.process.directory name with
      | .error f =>
        complain s!"cannot open {shown} for reading: {f.text}"
        well := false
      | .ok _ =>
        if isNamed then print header
        isFirst := false
        match ← readPath name with
        | .ok text => print (cut part separator text)
        | .error f =>
          complain s!"error reading {shown}: {f.text}"
          well := false
  return code well

/-- Prints the first part of each file. -/
def head : Utility := partOf '-' "open" firstPart ['-']

/-- Prints the last part of each file. -/
def tail : Utility := partOf '+' "open" lastPart ['-', '+']

/-! ## Counting -/

/-- What was counted of a text. -/
structure Counts where
  lines : Nat := 0
  words : Nat := 0
  octets : Nat := 0
  width : Nat := 0

namespace Counts

/-- Counts a text. -/
def ofText (text : String) : Counts :=
  let widths := (Octets.split (· == '\n') text).map fun line =>
    line.toList.foldl (fun w c => if c = '\t' then (w / 8 + 1) * 8 else if Octets.isPrintable c then w + 1 else w) 0
  { lines := (text.toList.filter (· == '\n')).length
    words := (Octets.words Octets.isSpace text).length
    octets := text.length
    width := widths.foldl max 0 }

def add (a b : Counts) : Counts :=
  { lines := a.lines + b.lines, words := a.words + b.words, octets := a.octets + b.octets
    width := max a.width b.width }

/-- Counts in columns of a width. -/
def row (columns : Counts → List Nat) (width : Nat) (c : Counts) (name : String) : String :=
  " ".intercalate ((columns c).map fun n => Octets.padLeft ' ' width (toString n)) ++
    (if name = "" then "" else " " ++ name) ++ "\n"

end Counts

/-- The size of a file as it is recorded, and whether it is a file at all. -/
def recordedSize (name : String) : Work (Nat × Bool) := do
  let t ← get
  let node? : Option Nat :=
    if name = "-" then
      match (t.process.opening? 0).map fun o => (t.machine.opening o).channel with
      | some (.node i) => some i
      | _ => none
    else t.machine.files.find? t.process.directory name
  match node? with
  | some i => return ((t.machine.files.get i).size, (t.machine.files.get i).isFile)
  | none => return (0, name != "-")

/-- Counts the lines, words and octets of files. -/
def count : Utility := fun args => do
  let g ← options
    { letters := "clLmw"
      words := [("bytes", .nothing, "c"), ("chars", .nothing, "m"), ("lines", .nothing, "l"),
        ("max-line-length", .nothing, "L"), ("words", .nothing, "w"), ("total", .value, "total")] } args
  let asked := ["l", "w", "m", "c", "L"].filter g.has
  let asked := if asked.isEmpty then ["l", "w", "c"] else asked
  let columns (c : Counts) : List Nat := asked.map fun o =>
    match o with
    | "l" => c.lines
    | "w" => c.words
    | "L" => c.width
    | _ => c.octets
  let files := orInput g.operands
  let sizes ← files.mapM recordedSize
  let total := sizes.foldl (fun n x => n + x.1) 0
  let width :=
    if files.length = 1 && asked.length = 1 then 1
    else max (toString total).length (if sizes.all (·.2) then 1 else 7)
  let mut sum : Counts := {}
  let mut well := true
  for name in files do
    match ← readOperand name with
    | .ok text =>
      let c := Counts.ofText text
      sum := sum.add c
      print (c.row columns width (if g.operands.isEmpty then "" else Quoting.ifNeeded name))
    | .error f =>
      complain s!"{Quoting.ifNeeded name}: {f.text}"
      well := false
      if f == .isDirectory then print (({} : Counts).row columns width (Quoting.ifNeeded name))
  if files.length > 1 then print (sum.row columns width "total")
  return code well

/-- Prints files with the numbers of their lines. -/
def numberLines : Utility := fun args => do
  let g ← options
    { letters := "b:d:f:h:i:l:n:ps:v:w:"
      words := [("body-numbering", .value, "b"), ("line-increment", .value, "i"), ("number-format", .value, "n"),
        ("number-separator", .value, "s"), ("starting-line-number", .value, "v"), ("number-width", .value, "w")] }
    args
  let number (o : String) (default : Int) : Int := ((g.value? o).bind Numeral.integer?).getD default
  let width := (number "w" 6).toNat
  let separator := (g.value? "s").getD "\t"
  let style := (g.value? "b").getD "t"
  let (text, well) ← gather g.operands
  let form (n : Int) : String :=
    match (g.value? "n").getD "rn" with
    | "ln" => Octets.padRight ' ' width (toString n)
    | "rz" => Octets.padLeft '0' width (toString n)
    | _ => Octets.padLeft ' ' width (toString n)
  let (lines, _) := (Octets.lines text).foldl (fun ((shown, n) : List String × Int) line =>
    if style = "a" || (style != "n" && line != "") then
      ((form n ++ separator ++ line) :: shown, n + number "i" 1)
    else ((Octets.repeated (width + separator.length) ' ' ++ line) :: shown, n)) ([], number "v" 1)
  print (Octets.ofLines lines.reverse)
  return code well

/-! ## Widths of lines -/

/-- A line in pieces that are not wider than a width. -/
def foldLine (width : Nat) (atBlanks : Bool) : (steps : Nat) → List Char → List (List Char)
  | 0, cs => [cs]
  | steps + 1, cs =>
    if cs.length ≤ width || width = 0 then [cs]
    else
      let piece := cs.take width
      let upToBlank := (piece.reverse.dropWhile fun c => c != ' ' && c != '\t').reverse
      let piece := if atBlanks && !upToBlank.isEmpty then upToBlank else piece
      piece :: foldLine width atBlanks steps (cs.drop piece.length)

/-- Prints lines that are not wider than a width. -/
def foldLines : Utility := fun args => do
  let args :=
    match args with
    | arg :: rest =>
      match arg.toList with
      | '-' :: cs => if cs != [] && cs.all Char.isDigit then ("-w" ++ String.ofList cs) :: rest else args
      | _ => args
    | [] => []
  let g ← options
    { letters := "bsw:", words := [("bytes", .nothing, "b"), ("spaces", .nothing, "s"), ("width", .value, "w")] } args
  let width ←
    match g.value? "w" with
    | none => pure 80
    | some text =>
      match Numeral.decimal? text with
      | some (n + 1) => pure (n + 1)
      | _ => fail 1 s!"invalid number of columns: {Quoting.literal text}"
  let well ← withEach g.operands fun _ text => do
    let lines := (Octets.rawLines text).map fun line =>
      let cs := line.toList
      let (body, ending) := if cs.getLast? == some '\n' then (cs.dropLast, "\n") else (cs, "")
      "\n".intercalate ((foldLine width (g.has "s") body.length body).map String.ofList) ++ ending
    print (String.join lines)
  return code well

/-- A line with blanks in place of tabs. -/
def expanded (stop : Nat) (isInitial : Bool) : (column : Nat) → (isBlank : Bool) → List Char → String
  | _, _, [] => ""
  | column, isBlank, c :: cs =>
    if c = '\t' && (isBlank || !isInitial) then
      let width := stop - column % stop
      Octets.repeated width ' ' ++ expanded stop isInitial (column + width) isBlank cs
    else c.toString ++ expanded stop isInitial (column + 1) (isBlank && Octets.isBlank c) cs

/-- Prints files with blanks in place of tabs. -/
def expandTabs : Utility := fun args => do
  let g ← options
    { letters := "it:", words := [("initial", .nothing, "i"), ("tabs", .value, "t")] } args
  let stop := max 1 (((g.value? "t").bind Numeral.decimal?).getD 8)
  let well ← withEach g.operands fun _ text =>
    print (String.join ((Octets.rawLines text).map fun l => expanded stop (g.has "i") 0 true l.toList))
  return code well

/-- A line with tabs in place of its leading blanks. -/
def unexpanded (stop : Nat) (cs : List Char) : String :=
  let blanks := cs.takeWhile Octets.isBlank
  let width := blanks.foldl (fun w c => if c = '\t' then (w / stop + 1) * stop else w + 1) 0
  Octets.repeated (width / stop) '\t' ++ Octets.repeated (width % stop) ' ' ++
    String.ofList (cs.drop blanks.length)

/-- Prints files with tabs in place of leading blanks. -/
def unexpandTabs : Utility := fun args => do
  let g ← options
    { letters := "at:"
      words := [("all", .nothing, "a"), ("first-only", .nothing, "first"), ("tabs", .value, "t")] } args
  let stop := max 1 (((g.value? "t").bind Numeral.decimal?).getD 8)
  let well ← withEach g.operands fun _ text =>
    print (String.join ((Octets.rawLines text).map fun l => unexpanded stop l.toList))
  return code well

/-! ## Splitting -/

/-- The letters that name a part of a file. -/
def partSuffix (isNumeric : Bool) (width n : Nat) : String :=
  if isNumeric then Octets.padLeft '0' width (toString n)
  else
    String.ofList ((List.range width).reverse.map fun i => Char.ofNat ('a'.toNat + n / Nat.pow 26 i % 26))

/-- A text in pieces of a size. -/
def chunks (size : Nat) : (steps : Nat) → List Char → List (List Char)
  | 0, _ => []
  | steps + 1, cs => if cs.isEmpty || size = 0 then [] else cs.take size :: chunks size steps (cs.drop size)

/-- Lists in pieces of a size. -/
def groups {α : Type} (size : Nat) : (steps : Nat) → List α → List (List α)
  | 0, _ => []
  | steps + 1, xs => if xs.isEmpty || size = 0 then [] else xs.take size :: groups size steps (xs.drop size)

/-- Writes a file in pieces. -/
def splitFile : Utility := fun args => do
  let g ← options
    { letters := "a:b:C:dl:n:x"
      words := [("suffix-length", .value, "a"), ("bytes", .value, "b"), ("numeric-suffixes", .attached, "d"),
        ("lines", .value, "l"), ("number", .value, "n"), ("additional-suffix", .value, "suffix")] } args
  let (input, lead) ←
    match g.operands with
    | [] => pure ("-", "x")
    | [input] => pure (input, "x")
    | [input, lead] => pure (input, lead)
    | _ :: _ :: extra :: _ => extraOperand extra
  let text ←
    match ← readOperand input with
    | .ok text => pure text
    | .error .isDirectory => fail 1 s!"{Quoting.ifNeeded input}: read error: {Fault.isDirectory.text}"
    | .error f => fail 1 s!"cannot open {Quoting.always input} for reading: {f.text}"
  let parts ←
    match g.value? "b", g.value? "n" with
    | some size, _ => do
      let size ← sizeOr "number of bytes" size
      pure ((chunks size (text.length + 1) text.toList).map String.ofList)
    | none, some count => do
      let count := max 1 ((Numeral.decimal? count).getD 1)
      let size := text.length / count
      let cs := text.toList
      pure ((List.range count).map fun i =>
        String.ofList (if i + 1 = count then cs.drop (i * size) else (cs.drop (i * size)).take size))
    | none, none => do
      let lines ← match g.value? "l" with
        | some n => sizeOr "number of lines" n
        | none => pure 1000
      let raw := Octets.rawLines text
      pure ((groups lines (raw.length + 1) raw).map String.join)
  let width := ((g.value? "a").bind Numeral.decimal?).getD 2
  for (part, i) in parts.zip (List.range parts.length) do
    let name := lead ++ partSuffix (g.has "d") width i ++ (g.value? "suffix").getD ""
    match ← writePath name part .write with
    | .ok () => pure ()
    | .error f => fail 1 s!"{Quoting.ifNeeded name}: {f.text}"
  return 0

end Utility

end Unnest.Host
