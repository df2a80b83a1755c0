import Unnest.Host.Digest
import Unnest.Host.Utility.Basic

/-!
# Checksums of files

Programs that print the digests of files, and compare files with digests that were
printed before.
-/

namespace Unnest.Host.Utility

open Work

/-- A way to sum files up. -/
structure Checksum where
  /-- What the sum is called where it is printed with its name. -/
  title : String
  /-- The sum of a text in octets; its length can be chosen for some. -/
  digest : (size : Nat) → String → List Nat
  size : Nat

namespace Checksum

def message128 : Checksum := ⟨"MD5", fun _ => Digest.message128, 16⟩
def secure160 : Checksum := ⟨"SHA1", fun _ => Digest.secure160, 20⟩
def secure224 : Checksum := ⟨"SHA224", fun _ => Digest.secure224, 28⟩
def secure256 : Checksum := ⟨"SHA256", fun _ => Digest.secure256, 32⟩
def secure384 : Checksum := ⟨"SHA384", fun _ => Digest.secure384, 48⟩
def secure512 : Checksum := ⟨"SHA512", fun _ => Digest.secure512, 64⟩
def blake : Checksum := ⟨"BLAKE2b", Digest.blake, 64⟩

/-- The sums by the names that options give them. -/
def named : List (String × Checksum) :=
  [("md5", message128), ("sha1", secure160), ("sha224", secure224), ("sha256", secure256),
    ("sha384", secure384), ("sha512", secure512), ("blake2b", blake)]

end Checksum

/-- How digests are printed. -/
structure ChecksumStyle where
  hasTitle : Bool := false
  isBinary : Bool := false
  ending : String := "\n"
  size : Nat
  deriving Inhabited

/-- A name in a line that holds nothing else behind it, and what stands at the start of
the line if the name was changed. -/
def escapedName (name : String) : String × String :=
  if name.any fun c => c = '\\' || c = '\n' || c = '\r' then
    ("\\", String.join (name.toList.map fun c =>
      if c = '\\' then "\\\\" else if c = '\n' then "\\n" else if c = '\r' then "\\r" else c.toString))
  else ("", name)

/-- Prints the digests of files. -/
def printDigests (k : Checksum) (style : ChecksumStyle) (names : List String) : Work Bool :=
  forEach names fun name => do
    match ← readOperand name with
    | .error f => complain s!"{Quoting.ifNeeded name}: {f.text}"; return false
    | .ok text => do
      let digest := Digest.hexadecimal (k.digest style.size text)
      let (lead, shown) := if style.ending = "\n" then escapedName name else ("", name)
      let title := if style.size = k.size then k.title else s!"{k.title}-{8 * style.size}"
      let line :=
        if style.hasTitle then s!"{lead}{title} ({shown}) = {digest}"
        else s!"{lead}{digest} " ++ (if style.isBinary then "*" else " ") ++ shown
      print (line ++ style.ending)
      return true

/-- A name that was changed to fit into a line. -/
def unescapedName : List Char → String
  | '\\' :: 'n' :: cs => "\n" ++ unescapedName cs
  | '\\' :: 'r' :: cs => "\r" ++ unescapedName cs
  | '\\' :: '\\' :: cs => "\\" ++ unescapedName cs
  | c :: cs => c.toString ++ unescapedName cs
  | [] => ""

/-- The digest and the name of the file in a line. -/
def readDigestLine (k : Checksum) (line : String) : Option (String × String) :=
  let cs := line.toList.dropWhile Octets.isBlank
  let (isChanged, cs) :=
    match cs with
    | '\\' :: cs => (true, cs)
    | cs => (false, cs)
  let isDigit (c : Char) : Bool := (Numeral.digitOf? 16 c).isSome
  let finish (digest name : List Char) : Option (String × String) :=
    if digest.all isDigit && digest.length = 2 * k.size && !name.isEmpty then
      some ((String.ofList digest).map Char.toLower,
        if isChanged then unescapedName name else String.ofList name)
    else none
  match Octets.after? (k.title ++ " (") (String.ofList cs) with
  | some rest =>
    let rest := rest.toList.reverse
    let digest := rest.takeWhile isDigit
    match rest.drop digest.length with
    | ' ' :: '=' :: ' ' :: ')' :: name => finish digest.reverse name.reverse
    | _ => none
  | none =>
    let digest := cs.takeWhile isDigit
    match cs.drop digest.length with
    | ' ' :: ' ' :: name | ' ' :: '*' :: name => finish digest name
    | ' ' :: name => finish digest name
    | _ => none

/-- What was found while files were compared with digests. -/
structure Comparison where
  good : Nat := 0
  wrong : Nat := 0
  unreadable : Nat := 0
  malformed : Nat := 0
  read : Nat := 0

/-- One of some things, or several of them. -/
def counted (n : Nat) (one several : String) : String := if n = 1 then s!"1 {one}" else s!"{n} {several}"

/-- Compares files with the digests in a list. -/
def compareDigests (k : Checksum) (has : String → Bool) (list : String) : Work Bool := do
  let shown := if list = "-" then "'standard input'" else Quoting.ifNeeded list
  match ← readOperand list with
  | .error f => complain s!"{shown}: {f.text}"; return false
  | .ok text => do
    let mut c : Comparison := {}
    for line in Octets.lines text do
      let line := String.ofList (line.toList.reverse.dropWhile (· == '\r')).reverse
      if line.toList.head? == some '#' then continue
      match readDigestLine k line with
      | none => c := { c with malformed := c.malformed + 1 }
      | some (digest, name) => do
        c := { c with read := c.read + 1 }
        let (lead, shown) := escapedName name
        match ← readOperand name with
        | .error f =>
          if f == .missing && has "ignore-missing" then continue
          complain s!"{Quoting.ifNeeded name}: {f.text}"
          c := { c with unreadable := c.unreadable + 1 }
          if !has "status" then printLine s!"{lead}{shown}: FAILED open or read"
        | .ok text =>
          if Digest.hexadecimal (k.digest k.size text) = digest then
            c := { c with good := c.good + 1 }
            if !has "status" && !has "quiet" then printLine s!"{lead}{shown}: OK"
          else
            c := { c with wrong := c.wrong + 1 }
            if !has "status" then printLine s!"{lead}{shown}: FAILED"
    if c.read = 0 then
      complain s!"{shown}: no properly formatted checksum lines found"
      return false
    if !has "status" then
      if c.malformed != 0 then
        let what := counted c.malformed "line is improperly formatted" "lines are improperly formatted"
        complain s!"WARNING: {what}"
      if c.unreadable != 0 then
        let what := counted c.unreadable "listed file could not be read" "listed files could not be read"
        complain s!"WARNING: {what}"
      if c.wrong != 0 then
        let what := counted c.wrong "computed checksum did NOT match" "computed checksums did NOT match"
        complain s!"WARNING: {what}"
    let isEmpty := has "ignore-missing" && c.good = 0 && c.wrong = 0
    if isEmpty then complain s!"{shown}: no file was verified"
    return !isEmpty && c.wrong = 0 && c.unreadable = 0 && (c.malformed = 0 || !has "strict")

/-- The options of the programs for digests. -/
def digestOptions : OptionTable :=
  { letters := "bctwz"
    words := [("binary", .nothing, "b"), ("check", .nothing, "c"), ("text", .nothing, "t"),
      ("warn", .nothing, "w"), ("zero", .nothing, "z"), ("tag", .nothing, "tag"), ("quiet", .nothing, "quiet"),
      ("status", .nothing, "status"), ("strict", .nothing, "strict"),
      ("ignore-missing", .nothing, "ignore-missing")] }

/-- Prints or compares digests. -/
def digests (k : Checksum) (g : Given) : Work Nat := do
  let names := if g.operands.isEmpty then ["-"] else g.operands
  let isCheck := g.has "c"
  if isCheck then
    if g.has "tag" then misuse 1 "the --tag option is meaningless when verifying checksums"
    if g.has "z" then misuse 1 "the --zero option is not supported when verifying checksums"
    if g.has "b" || g.has "t" then
      misuse 1 "the --binary and --text options are meaningless when verifying checksums"
    return code (← forEach names (compareDigests k g.has))
  for option in ["ignore-missing", "status", "warn", "quiet", "strict"] do
    if g.has option then misuse 1 s!"the --{option} option is meaningful only when verifying checksums"
  let size ←
    match g.value? "l" with
    | none => pure k.size
    | some text =>
      match Numeral.decimal? text with
      | some 0 => pure k.size
      | some n =>
        if n % 8 != 0 then fail 1 s!"invalid length: {Quoting.always text}"
        else if 8 * k.size < n then fail 1 s!"invalid length: {Quoting.always text}"
        else pure (n / 8)
      | none => fail 1 s!"invalid length: {Quoting.always text}"
  let style : ChecksumStyle :=
    { hasTitle := g.has "tag", isBinary := g.has "b", ending := if g.has "z" then "\x00" else "\n", size }
  return code (← printDigests k style names)

/-- The program for one digest. -/
def digestFiles (k : Checksum) : Utility := fun args => do
  let t := digestOptions
  let t :=
    if k.title = Checksum.blake.title then
      { t with letters := t.letters ++ "l:", words := t.words ++ [("length", .value, "l")] }
    else t
  digests k (← options t args)

/-- Prints a plain sum of files, with the count of their blocks. -/
def printSums (line : (text : String) → String) (operands : List String) : Work Bool :=
  forEach (if operands.isEmpty then ["-"] else operands) fun name => do
    match ← readOperand name with
    | .error f => complain s!"{Quoting.ifNeeded name}: {f.text}"; return false
    | .ok text => printLine (line text ++ if operands.isEmpty then "" else " " ++ name); return true

/-- The line of a sum that is turned. -/
def turningLine (text : String) : String :=
  let sum := Octets.padLeft '0' 5 (toString (Digest.turning text))
  let blocks := Octets.padLeft ' ' 5 (toString ((text.length + 1023) / 1024))
  s!"{sum} {blocks}"

/-- The line of a sum that is folded. -/
def foldedLine (text : String) : String := s!"{Digest.folded text} {(text.length + 511) / 512}"

/-- The line of a cyclic sum. -/
def cyclicLine (text : String) : String := s!"{Digest.cyclic text} {text.length}"

/-- Prints plain sums. -/
def sums : Utility := fun args => do
  let g ← options { letters := "rs", words := [("sysv", .nothing, "s")] } args
  let line := if g.last? ["r", "s"] == some "s" then foldedLine else turningLine
  return code (← printSums line g.operands)

/-- Prints sums of a kind that can be chosen. -/
def checksums : Utility := fun args => do
  let t := digestOptions
  let g ← options
    { t with
      letters := "a:bctwzl:"
      words := t.words ++ [("algorithm", .value, "a"), ("length", .value, "l"),
        ("untagged", .nothing, "untagged"), ("debug", .nothing, "debug"), ("base64", .nothing, "base64"),
        ("raw", .nothing, "raw")] } args
  match (g.value? "a").getD "crc" with
  | "crc" => do
    if g.has "c" then
      let known := Checksum.named.map (·.2)
      let names := if g.operands.isEmpty then ["-"] else g.operands
      let well ← forEach names fun name => do
        let text ← ask fun fs here => fs.read here name
        let fits (k : Checksum) : Bool :=
          (Octets.lines (text.toOption.getD "")).any fun line => (readDigestLine k line).isSome
        compareDigests ((known.find? fits).getD .message128) g.has name
      return code well
    return code (← printSums cyclicLine g.operands)
  | "bsd" => return code (← printSums turningLine g.operands)
  | "sysv" => return code (← printSums foldedLine g.operands)
  | name =>
    match Checksum.named.lookup name with
    | some k =>
      let isPlain := g.has "c" || g.last? ["tag", "untagged"] == some "untagged"
      let kept := g.options.filter fun o => o.1 != "tag" || g.has "c"
      digests k { g with options := if isPlain then kept else kept ++ [("tag", "")] }
    | none =>
      misuse 1 s!"invalid argument {Quoting.always name} for '--algorithm'"

end Unnest.Host.Utility
