import Unnest.Host.Escape
import Unnest.Host.Real
import Unnest.Host.Utility.Basic

/-!
# Printing

`echo` prints its arguments, and `printf` prints them in a format.  Both exist three
times, in the plain shell, in the rich shell, and as programs of their own, which read
different escapes, hold reals in different sizes, and complain in different words.
-/

namespace Unnest.Host

/-- Who prints. -/
inductive Printer where
  | plainShell
  | richShell
  | program
  deriving DecidableEq, Repr

namespace Printer

/-- The escapes in a format. -/
def formatEscapes : Printer → EscapeRules
  | .plainShell => {}
  | .richShell => { hasHex := true, hidden := ['\\', '"', '\x27', '?'] }
  | .program => { hasHex := true, hasStop := true, hidden := ['\\', '"'] }

/-- The escapes in an argument that is printed with its escapes read. -/
def textEscapes : Printer → EscapeRules
  | .plainShell => { hasLeadingNought := true, hasStop := true }
  | .richShell =>
    { hasLeadingNought := true, hasStop := true, hasHex := true, hidden := ['\\', '"', '\x27', '?'] }
  | .program => { hasLeadingNought := true, hasStop := true, hasHex := true }

/-- The escapes that `echo` reads if it reads any. -/
def echoEscapes : Printer → EscapeRules
  | .plainShell => { hasLeadingNought := true, hasStop := true }
  | .richShell => { hasLeadingNought := true, hasPlainOctal := false, hasStop := true, hasHex := true }
  | .program => { hasLeadingNought := true, hasStop := true, hasHex := true }

/-- A real as the printer holds it. -/
def hold : Printer → Real → Real
  | .plainShell => Real.double
  | .richShell | .program => Real.extended

end Printer

namespace Utility

/-! ## echo -/

/-- The leading arguments that are options of `echo`, and the others. -/
def echoOptions (letters : List Char) : List String → List Char × List String
  | [] => ([], [])
  | arg :: args =>
    match arg.toList with
    | '-' :: c :: cs =>
      if (c :: cs).all letters.contains then
        let (options, rest) := echoOptions letters args
        (c :: cs ++ options, rest)
      else ([], arg :: args)
    | _ => ([], arg :: args)

/-- Prints its arguments on a line. -/
def echo (p : Printer) : Utility := fun args => do
  let (options, args) :=
    match p, args with
    | .plainShell, "-n" :: args => (['n'], args)
    | .plainShell, args => ([], args)
    | _, args => echoOptions ['n', 'e', 'E'] args
  let readsEscapes :=
    match p, (options.filter (· != 'n')).getLast? with
    | .plainShell, _ => true
    | _, last => last == some 'e'
  let text := " ".intercalate args
  let (text, isWhole) := if readsEscapes then p.echoEscapes.read text else (text, true)
  Work.print (if isWhole && !options.contains 'n' then text ++ "\n" else text)
  return 0

/-! ## Formats -/

/-- A width or a precision. -/
inductive Measure where
  | absent
  | given (n : Nat)
  /-- The next argument. -/
  | argument
  deriving DecidableEq, Repr

/-- A part of a format. -/
inductive FormatPart where
  | text (s : String)
  | conversion (flags : List Char) (width precision : Measure) (letter : Char) (source : String)
  /-- The end of all printing. -/
  | stop
  /-- What is no conversion, up to where that shows. -/
  | wrong (source : String)
  deriving Repr

/-- A number at the start of a conversion. -/
def readMeasure (cs : List Char) : Measure × List Char :=
  match cs with
  | '*' :: cs => (.argument, cs)
  | cs =>
    let digits := cs.takeWhile Char.isDigit
    match Numeral.inBase? 10 digits with
    | some n => (.given n, cs.dropWhile Char.isDigit)
    | none => (.absent, cs)

/-- The letters of conversions. -/
def conversionLetters (p : Printer) : List Char :=
  "diouxXeEfFgGaAcsb".toList ++ (if p == .plainShell then [] else ['q'])

/-- Reads what follows a percent sign. -/
def readConversion (p : Printer) (cs : List Char) : FormatPart × List Char :=
  let isFlag (c : Char) : Bool := "-+ #0'".toList.contains c && (c != '\x27' || p != .plainShell)
  let flags := cs.takeWhile isFlag
  let rest := cs.dropWhile isFlag
  let (width, rest) := readMeasure rest
  let (precision, rest) :=
    match rest with
    | '.' :: rest =>
      match readMeasure rest with
      | (.absent, rest) => (Measure.given 0, rest)
      | (m, rest) => (m, rest)
    | rest => (Measure.absent, rest)
  let rest :=
    if p == .plainShell then rest
    else rest.dropWhile fun c => "hlLjzt".toList.contains c
  let source (rest : List Char) : String :=
    "%" ++ String.ofList (cs.take (cs.length - rest.length))
  match rest with
  | c :: after =>
    if (conversionLetters p).contains c then
      (.conversion flags width precision c (source after), after)
    else (.wrong (source after), after)
  | [] => (.wrong (source []), [])

/-- Reads a format. -/
def readFormat (p : Printer) : (steps : Nat) → List Char → List FormatPart
  | 0, _ => []
  | _, [] => []
  | steps + 1, '%' :: '%' :: cs => .text "%" :: readFormat p steps cs
  | steps + 1, '%' :: cs =>
    let (part, rest) := readConversion p cs
    part :: readFormat p steps rest
  | steps + 1, '\\' :: cs =>
    match cs, p.formatEscapes.hasStop with
    | 'c' :: _, true => [.stop]
    | cs, _ =>
      match p.formatEscapes.escape? cs with
      | some (text, cs) => .text (String.ofList text) :: readFormat p steps cs
      | none => .text "\\" :: readFormat p steps cs
  | steps + 1, cs =>
    let isText (c : Char) : Bool := c != '%' && c != '\\'
    .text (String.ofList (cs.takeWhile isText)) :: readFormat p steps (cs.dropWhile isText)

/-! ## Numbers from arguments -/

/-- What is wrong with an argument that should be a number. -/
inductive NumberFault where
  /-- It does not start with one. -/
  | absent
  /-- Something follows. -/
  | trailing
  | outOfRange
  deriving DecidableEq, Repr

/-- A whole number at the start of a text. -/
def readInteger (text : String) : Int × Option NumberFault :=
  let cs := text.toList.dropWhile Octets.isSpace
  let (isNegative, digits) :=
    match cs with
    | '-' :: cs => (true, cs)
    | '+' :: cs => (false, cs)
    | cs => (false, cs)
  let (n, rest) :=
    match digits with
    | '0' :: x :: cs =>
      if x = 'x' || x = 'X' then
        if (cs.head?.bind (Numeral.digitOf? 16)).isSome then Numeral.leading 16 cs else (0, x :: cs)
      else Numeral.leading 8 (x :: cs)
    | cs => Numeral.leading 10 cs
  let value : Int := if isNegative then -n else n
  if !(digits.head?.any Char.isDigit) then (0, some .absent)
  else (value, if rest.isEmpty then none else some .trailing)

/-- Complains about an argument that should be a number; whether that makes the code. -/
def complainNumber (p : Printer) (arg : String) (f : NumberFault) : Work Bool := do
  let range := "Numerical result out of range"
  match p, f with
  | .plainShell, .absent => Work.complain s!"{arg}: expected numeric value"; return true
  | .plainShell, .trailing => Work.complain s!"{arg}: not completely converted"; return true
  | .plainShell, .outOfRange => Work.complain s!"{arg}: {range}"; return true
  | .richShell, .outOfRange => Work.complain s!"warning: {arg}: {range}"; return false
  | .richShell, _ =>
    let kind :=
      match arg.toList with
      | '0' :: 'x' :: _ | '0' :: 'X' :: _ => "hex "
      | '0' :: _ => "octal "
      | _ => ""
    Work.complain s!"{arg}: invalid {kind}number"
    return true
  | .program, .absent =>
    let name := Quoting.literal arg
    Work.complain s!"{name}: expected a numeric value"; return true
  | .program, .trailing =>
    let name := Quoting.literal arg
    Work.complain s!"{name}: value not completely converted"; return true
  | .program, .outOfRange =>
    let name := Quoting.literal arg
    Work.complain s!"{name}: {range}"; return true

/-- The octet that an argument after a quote names, if it does. -/
def quotedOctet? (p : Printer) (arg : String) : Option (Except NumberFault Nat) :=
  match arg.toList with
  | '\x27' :: cs | '"' :: cs =>
    match cs with
    | c :: _ => some (.ok c.toNat)
    | [] => if p == .program then some (.error .absent) else some (.ok 0)
  | _ => none

/-- What has been printed by a format so far, and what is left to print. -/
structure Printing where
  text : String := ""
  args : List String
  isWrong : Bool := false
  /-- Whether an argument was used. -/
  hasTaken : Bool := false
  isOver : Bool := false

namespace Printing

/-- The next argument. -/
def next (s : Printing) : Option String × Printing :=
  (s.args.head?, { s with args := s.args.tail, hasTaken := s.hasTaken || !s.args.isEmpty })

/-- Prints more. -/
def add (s : Printing) (text : String) : Printing := { s with text := s.text ++ text }

end Printing

/-- A whole number from an argument. -/
def integerArgument (p : Printer) (s : Printing) (least most : Int) : Work (Int × Printing) := do
  let (arg?, s) := s.next
  let arg := arg?.getD ""
  if arg = "" then return (0, s)
  let (n, fault?) :=
    match quotedOctet? p arg with
    | some (.ok n) => ((n : Int), none)
    | some (.error f) => (0, some f)
    | none => readInteger arg
  let fault? := if fault?.isNone && (n < least || most < n) then some .outOfRange else fault?
  -- a negative number that is asked for without a sign wraps around
  let n := max least (min most n)
  match fault? with
  | none => return (n, s)
  | some f =>
    let isWrong ← complainNumber p arg f
    return (n, { s with isWrong := s.isWrong || isWrong })

/-- A real from an argument. -/
def realArgument (p : Printer) (s : Printing) : Work (Real × Printing) := do
  let (arg?, s) := s.next
  let arg := arg?.getD ""
  if arg = "" then return (.finite false 0 1, s)
  let (r, fault?) : Real × Option NumberFault :=
    match quotedOctet? p arg with
    | some (.ok n) => (.finite false n 1, none)
    | some (.error f) => (.finite false 0 1, some f)
    | none =>
      match Real.read? arg.toList with
      | none => (.finite false 0 1, some .absent)
      | some (r, rest) => (p.hold r, if rest.isEmpty then none else some .trailing)
  match fault? with
  | none => return (r, s)
  | some f =>
    let isWrong ← complainNumber p arg f
    return (r, { s with isWrong := s.isWrong || isWrong })

/-- A text as a shell reads it back, where a name without special characters stays. -/
def shellQuoted (p : Printer) (text : String) : String :=
  if text = "" then "''"
  else if p == .program then Quoting.ifNeeded text
  else if text.all Octets.isPrintable then
    String.join (text.toList.map fun c =>
      if c.isAlphanum || "%+,-./:=@_^".toList.contains c then c.toString else "\\" ++ c.toString)
  else
    "$'" ++ String.join (text.toList.map fun c =>
      if c = '\x27' || c = '\\' then "\\" ++ c.toString
      else if Octets.isPrintable c then c.toString
      else if c = '\x1b' then "\\E"
      else Quoting.escaped c) ++ "'"

/-- Prints one part of a format. -/
def printPart (p : Printer) (s : Printing) : FormatPart → Work Printing
  | .text text => return s.add text
  | .stop => return { s with isOver := true }
  | .wrong source => do
    Work.print s.text
    let last := source.toList.getLastD '%'
    match p with
    | .plainShell =>
      if last = '%' || last.isDigit || last = '.' then Work.fail 2 "missing format character"
      else Work.fail 2 s!"{source}: invalid directive"
    | .richShell =>
      if last = '%' || last.isDigit || last = '.' || "hlLjzt".toList.contains last then
        Work.fail 1 s!"\x60{source}': missing format character"
      else Work.fail 1 s!"\x60{last}': invalid format character"
    | .program => Work.fail 1 s!"{source}: invalid conversion specification"
  | .conversion flags width precision letter _ => do
    let (width, s) ←
      match width with
      | .absent => pure ((0 : Int), s)
      | .given n => pure ((n : Int), s)
      | .argument => integerArgument p s (-Int.pow 2 31) (Int.pow 2 31 - 1)
    let (precision?, s) ←
      match precision with
      | .absent => pure ((none : Option Int), s)
      | .given n => pure (some (n : Int), s)
      | .argument => do
        let (n, s) ← integerArgument p s (-Int.pow 2 31) (Int.pow 2 31 - 1)
        pure (some n, s)
    let layout : Real.Layout :=
      { width := width.natAbs
        precision? := (precision?.filter (0 ≤ ·)).map Int.toNat
        isLeft := flags.contains '-' || width < 0
        isZeroed := flags.contains '0'
        plus := if flags.contains '+' then "+" else if flags.contains ' ' then " " else ""
        isAlternate := flags.contains '#'
        isCapital := letter.isUpper }
    let cutText (text : String) : String :=
      match layout.precision? with
      | some n => Octets.take n text
      | none => text
    match letter with
    | 's' =>
      let (arg?, s) := s.next
      return s.add (layout.fill "" (cutText (arg?.getD "")) false)
    | 'q' =>
      let (arg?, s) := s.next
      return s.add (layout.fill "" (shellQuoted p (arg?.getD "")) false)
    | 'c' =>
      let (arg?, s) := s.next
      return s.add (layout.fill "" (Octets.take 1 (arg?.getD "")) false)
    | 'b' =>
      let (arg?, s) := s.next
      let (text, isWhole) := p.textEscapes.read (arg?.getD "")
      let s := s.add (layout.fill "" (cutText text) false)
      return { s with isOver := !isWhole }
    | 'd' | 'i' =>
      let (n, s) ← integerArgument p s (-Int.pow 2 63) (Int.pow 2 63 - 1)
      return s.add (Real.renderDigits layout (if n < 0 then "-" else layout.plus) "" (toString n.natAbs))
    | 'u' | 'o' | 'x' | 'X' =>
      let (n, s) ← integerArgument p s (-(Int.pow 2 64 - 1)) (Int.pow 2 64 - 1)
      let n := (n % Int.pow 2 64).toNat
      let digits :=
        match letter with
        | 'u' => toString n
        | 'o' => Numeral.digits 8 n
        | 'x' => Numeral.digits 16 n
        | _ => Numeral.capitalDigits 16 n
      let (mark, digits) :=
        if !layout.isAlternate || n = 0 then ("", digits)
        else
          match letter with
          | 'o' => ("", "0" ++ digits)
          | 'x' => ("0x", digits)
          | 'X' => ("0X", digits)
          | _ => ("", digits)
      return s.add (Real.renderDigits layout "" mark digits)
    | _ =>
      let (r, s) ← realArgument p s
      let style : Real.Style :=
        match letter.toLower with
        | 'f' => .fixed
        | 'e' => .scientific
        | _ => .general
      return s.add (r.render layout style)

/-- Prints a format once. -/
def printOnce (p : Printer) (parts : List FormatPart) (s : Printing) : Work Printing :=
  parts.foldlM (fun s part => if s.isOver then pure s else printPart p s part) s

/-- Prints a format until its arguments are used up, and at least once. -/
def printAll (p : Printer) (parts : List FormatPart) : (rounds : Nat) → Printing → Work Printing
  | 0, s => return s
  | rounds + 1, s => do
    let s ← printOnce p parts { s with hasTaken := false }
    if s.isOver || s.args.isEmpty then return s
    else if !s.hasTaken then
      if p == .program then
        let arg := Quoting.literal (s.args.headD "")
        Work.print s.text
        Work.complain s!"warning: ignoring excess arguments, starting with {arg}"
        return { s with text := "" }
      return s
    else printAll p parts rounds s

/-- What a format makes of arguments. -/
def formatted (p : Printer) (format : String) (args : List String) : Work Printing :=
  printAll p (readFormat p format.length format.toList) (args.length + 1) { args }

/-- Prints its arguments in a format. -/
def printFormat (p : Printer) : Utility := fun args => do
  let args :=
    match args with
    | "--" :: args => args
    | args => args
  match args with
  | [] =>
    match p with
    | .plainShell => Work.fail 2 "usage: printf format [arg ...]"
    | .richShell => Work.fail 2 "usage: printf [-v var] format [arguments]"
    | .program => Work.misuse 1 "missing operand"
  | format :: args =>
    let s ← formatted p format args
    Work.print s.text
    return if s.isWrong then 1 else 0

end Utility

end Unnest.Host
