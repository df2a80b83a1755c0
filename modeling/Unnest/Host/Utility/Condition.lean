import Unnest.Host.Utility.Print

/-!
# Conditions

What can be asked of texts, of whole numbers and of files.  How a condition is read
depends first on how many words it has: with few of them a word that could be an
operator is an operand where the count leaves no other reading.  Longer conditions are
read by a grammar of alternatives, of parts that all have to hold, and of negations.

The plain shell reads all conditions by the grammar but for a few; the rich shell and
the programs count first.
-/

namespace Unnest.Host

/-- What a condition is asked about. -/
structure Asker where
  printer : Printer
  files : Files
  process : Process
  /-- Whether a name is that of a variable with a value. -/
  isSet : String → Bool := fun _ => false
  /-- Whether a name is that of an option that is on. -/
  isOn : String → Bool := fun _ => false

namespace Condition

/-- An answer, or what is wrong with the question. -/
abbrev Answer := Except String Bool

/-- The operators before one word. -/
def unaryOperators (p : Printer) : List String :=
  ["-b", "-c", "-d", "-e", "-f", "-g", "-G", "-h", "-k", "-L", "-n", "-O", "-p", "-r", "-s", "-S",
    "-t", "-u", "-w", "-x", "-z"] ++
  match p with
  | .plainShell => []
  | .richShell => ["-a", "-N", "-o", "-v", "-R"]
  | .program => ["-N"]

/-- The operators between two words. -/
def binaryOperators (p : Printer) : List String :=
  ["=", "!=", "-eq", "-ne", "-lt", "-le", "-gt", "-ge", "-nt", "-ot", "-ef"] ++
  match p with
  | .plainShell => ["<", ">"]
  | .richShell => ["==", "<", ">"]
  | .program => ["=="]

/-- The words of an operand that is missing its operator, and the like. -/
inductive Problem where
  | notUnary (word : String)
  | notBinary (word : String)
  | noOperand (operator : String)
  | notNumber (word : String)
  | unexpected (word : String)
  | noClosing (found? : Option String)

/-- A problem in words. -/
def Problem.text (p : Printer) : Problem → String
  | .notUnary word =>
    match p with
    | .plainShell => s!"{word}: unexpected operator"
    | .richShell => s!"{word}: unary operator expected"
    | .program => s!"{Quoting.literal word}: unary operator expected"
  | .notBinary word =>
    match p with
    | .plainShell => s!"{word}: unexpected operator"
    | .richShell => s!"{word}: binary operator expected"
    | .program => s!"{Quoting.literal word}: binary operator expected"
  | .noOperand operator =>
    match p with
    | .plainShell => s!"{operator}: argument expected"
    | .richShell => "argument expected"
    | .program => s!"missing argument after {Quoting.literal operator}"
  | .notNumber word =>
    match p with
    | .plainShell => s!"Illegal number: {word}"
    | .richShell => s!"{word}: integer expression expected"
    | .program => s!"invalid integer {Quoting.literal word}"
  | .unexpected word =>
    match p with
    | .plainShell => s!"{word}: unexpected operator"
    | .richShell =>
      if word.startsWith "-" then s!"syntax error: \x60{word}' unexpected" else "too many arguments"
    | .program => s!"extra argument {Quoting.literal word}"
  | .noClosing found? =>
    match p, found? with
    | .plainShell, _ => "closing paren expected"
    | .richShell, some found => s!"\x60)' expected, found {found}"
    | .richShell, none => "\x60)' expected"
    | .program, some found => s!"')' expected, found {found}"
    | .program, none => "')' expected"

/-- The number that a word is, between blanks. -/
def number? (word : String) : Option Int :=
  let cs := word.toList.dropWhile Octets.isSpace
  let cs := (cs.reverse.dropWhile Octets.isSpace).reverse
  Numeral.integer? (String.ofList cs)

/-- The answer to a question about one word. -/
def unary (a : Asker) (operator word : String) : Answer :=
  let node? : Option Node :=
    (a.files.find? a.process.directory word).map a.files.get
  let nodeIs (f : Node → Bool) : Answer := .ok (node?.any f)
  match operator with
  | "-n" => .ok (word != "")
  | "-z" => .ok (word == "")
  | "-e" | "-a" | "-r" | "-w" | "-O" | "-G" => nodeIs fun _ => true
  | "-f" => nodeIs Node.isFile
  | "-d" => nodeIs Node.isDirectory
  | "-x" => nodeIs Node.isExecutable
  | "-s" => nodeIs fun n => n.size != 0
  | "-h" | "-L" =>
    .ok ((a.files.findLink? a.process.directory word).any fun i => (a.files.get i).isLink)
  | "-c" => nodeIs Node.isDevice
  | "-p" => nodeIs Node.isQueue
  | "-u" => nodeIs fun n => n.mode &&& 0o4000 != 0
  | "-g" => nodeIs fun n => n.mode &&& 0o2000 != 0
  | "-k" => nodeIs fun n => n.mode &&& 0o1000 != 0
  | "-N" => nodeIs fun _ => false
  | "-v" => .ok (a.isSet word)
  | "-o" => .ok (a.isOn word)
  | "-t" =>
    if (number? word).isSome then .ok false else .error (Problem.text a.printer (.notNumber word))
  | _ => .ok false

/-- The answer to a question about two words. -/
def binary (a : Asker) (left operator right : String) : Answer :=
  let numbers (f : Int → Int → Bool) : Answer :=
    match number? left, number? right with
    | some m, some n => .ok (f m n)
    | none, _ => .error (Problem.text a.printer (.notNumber left))
    | _, none => .error (Problem.text a.printer (.notNumber right))
  let node? (word : String) : Option Nat := a.files.find? a.process.directory word
  let changed (word : String) : Option Nat := (node? word).map fun i => (a.files.get i).changed
  match operator with
  | "=" | "==" => .ok (left == right)
  | "!=" => .ok (left != right)
  | "<" => .ok (decide (left < right))
  | ">" => .ok (decide (right < left))
  | "-eq" => numbers fun m n => m == n
  | "-ne" => numbers fun m n => m != n
  | "-lt" => numbers fun m n => decide (m < n)
  | "-le" => numbers fun m n => decide (m ≤ n)
  | "-gt" => numbers fun m n => decide (n < m)
  | "-ge" => numbers fun m n => decide (n ≤ m)
  | "-ef" => .ok (match node? left, node? right with
    | some i, some j => i == j
    | _, _ => false)
  | "-nt" => .ok (match changed left, changed right with
    | some s, some t => decide (t < s)
    | some _, none => true
    | _, _ => false)
  | "-ot" => .ok (match changed left, changed right with
    | some s, some t => decide (s < t)
    | none, some _ => true
    | _, _ => false)
  | _ => .ok false

/-- Whether a word is an operator before one word. -/
def isUnary (p : Printer) (word : String) : Bool := (unaryOperators p).contains word

/-- Whether a word is an operator between two words. -/
def isBinary (p : Printer) (word : String) : Bool := (binaryOperators p).contains word

/-! ## The grammar -/

/-- What a reader of a condition finds: an answer and the words that are left. -/
abbrev Found := Except String (Bool × List String)

/-- A question without a connective, as the plain shell reads it. -/
def plainPrimary (a : Asker) (alternatives : List String → Found) : List String → Found
  | [] => .ok (false, [])
  | "(" :: ")" :: rest => .ok (false, rest)
  | "(" :: next :: rest => do
    let (value, rest) ← alternatives (next :: rest)
    match rest with
    | ")" :: rest => return (value, rest)
    | _ => throw (Problem.text a.printer (.noClosing rest.head?))
  | word :: rest =>
    -- an operator before one word is an operand where it stands last, or before a
    -- connective of two words that has a word to follow
    let isOperand :=
      match rest with
      | [] => true
      | [_] => false
      | next :: _ :: _ => isBinary a.printer next
    if isUnary a.printer word && !isOperand then
      match rest with
      | operand :: rest => return (← unary a word operand, rest)
      | [] => throw (Problem.text a.printer (.noOperand word))
    else
      match rest with
      | operator :: rest' =>
        if isBinary a.printer operator then
          match rest' with
          | right :: rest' => return (← binary a word operator right, rest')
          | [] => throw (Problem.text a.printer (.noOperand operator))
        else return (word != "", rest)
      | [] => return (word != "", [])

/-- A question without a connective, as those read it that count first. -/
def countedPrimary (a : Asker) (alternatives : List String → Found) : List String → Found
  | [] => .error (Problem.text a.printer (.noOperand ""))
  | "(" :: next :: rest => do
    let (value, rest) ← alternatives (next :: rest)
    match rest with
    | ")" :: rest => return (value, rest)
    | _ => throw (Problem.text a.printer (.noClosing rest.head?))
  | word :: rest =>
    match rest with
    | operator :: right :: rest' =>
      if isBinary a.printer operator then return (← binary a word operator right, rest')
      else if isUnary a.printer word then return (← unary a word operator, right :: rest')
      else if word.length = 2 && word.startsWith "-" then
        .error (Problem.text a.printer (.notUnary word))
      else return (word != "", rest)
    | [operand] =>
      if isUnary a.printer word then return (← unary a word operand, [])
      else if word.length = 2 && word.startsWith "-" then
        .error (Problem.text a.printer (.notUnary word))
      else return (word != "", rest)
    | [] => return (word != "", [])

/-- Negations of a question. -/
def negations (primary : List String → Found) : List String → Found
  | ["!"] => primary ["!"]
  | "!" :: rest => (negations primary rest).map fun (value, rest) => (!value, rest)
  | words => primary words

/-- Parts joined by a connective.  All of them are asked. -/
def joined (connective : String) (combine : Bool → Bool → Bool) (part : List String → Found) :
    (parts : Nat) → List String → Found
  | 0, words => part words
  | parts + 1, words => do
    let (value, rest) ← part words
    match rest with
    | word :: rest =>
      if word = connective then
        let (value', rest) ← joined connective combine part parts rest
        return (combine value value', rest)
      else return (value, word :: rest)
    | [] => return (value, [])

/-- Alternatives of parts that all have to hold. -/
def alternatives (a : Asker) : (depth : Nat) → List String → Found
  | 0, words => .ok (false, words)
  | depth + 1, words =>
    let primary :=
      if a.printer == .plainShell then plainPrimary a (alternatives a depth)
      else countedPrimary a (alternatives a depth)
    joined "-o" (· || ·) (joined "-a" (· && ·) (negations primary) words.length) words.length words

/-- A whole condition by the grammar. -/
def byGrammar (a : Asker) (words : List String) : Answer := do
  let (value, rest) ← alternatives a (words.length + 1) words
  match rest with
  | [] => return value
  | word :: _ => throw (Problem.text a.printer (.unexpected word))

/-! ## Counting first -/

/-- A condition as the plain shell reads it. -/
def plain (a : Asker) : List String → Answer
  | [] => .ok false
  | ["!", x, y] =>
    if isBinary a.printer x then binary a "!" x y else (plain a [x, y]).map (!·)
  | [x, operator, y] =>
    if isBinary a.printer operator then binary a x operator y
    else if x = "(" && y = ")" then plain a [operator]
    else byGrammar a [x, operator, y]
  | ["!", x, y, z] => (plain a [x, y, z]).map (!·)
  | ["(", x, y, ")"] => plain a [x, y]
  | words => byGrammar a words

/-- A condition as those read it that count first. -/
def counted (a : Asker) : List String → Answer
  | [] => .ok false
  | [x] => .ok (x != "")
  | ["!", x] => .ok (x == "")
  | [operator, x] =>
    if isUnary a.printer operator then unary a operator x
    else .error (Problem.text a.printer (.notUnary operator))
  | ["!", x, y] =>
    if isBinary a.printer x then binary a "!" x y else (counted a [x, y]).map (!·)
  | [x, operator, y] =>
    if isBinary a.printer operator then binary a x operator y
    else if operator = "-a" then .ok (x != "" && y != "")
    else if operator = "-o" then .ok (x != "" || y != "")
    else if x = "(" && y = ")" then .ok (operator != "")
    else .error (Problem.text a.printer (.notBinary operator))
  | ["!", x, y, z] => (counted a [x, y, z]).map (!·)
  | ["(", x, y, ")"] => counted a [x, y]
  | words => byGrammar a words

/-- The answer to a condition. -/
def answer (a : Asker) (words : List String) : Answer :=
  if a.printer == .plainShell then plain a words else counted a words

end Condition

namespace Utility

/-- Asks a condition. -/
def test (p : Printer) : Utility := fun args => do
  let t ← get
  let asker : Asker := { printer := p, files := t.machine.files, process := t.process }
  match Condition.answer asker args with
  | .ok value => return if value then 0 else 1
  | .error text => Work.fail 2 text

/-- Asks a condition that is written in brackets. -/
def bracket (p : Printer) : Utility := fun args => do
  if args.getLast? == some "]" then test p args.dropLast
  else
    match p with
    | .plainShell => Work.fail 2 "missing ]"
    | .richShell => Work.fail 2 "missing \x60]'"
    | .program => Work.fail 2 "missing ']'"

end Utility

end Unnest.Host
