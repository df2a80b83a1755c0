import Unnest.Host.Shell.State

/-!
# Arithmetic

Expressions of a shell are about whole numbers of 64 bits, and wrap around.  Operators
bind as they do in most languages; a variable can stand for its value, and be given
one.  The rich shell has more operators, takes the value of a variable for an expression
of its own, and reads numbers in any base up to 64.
-/

namespace Unnest.Host.Shell

/-- An expression. -/
inductive Arithmetic where
  | number (n : Int)
  | named (name : String) (subscript : Option String)
  | unary (operator : String) (a : Arithmetic)
  | binary (operator : String) (a b : Arithmetic)
  | choice (condition a b : Arithmetic)
  | assign (name : String) (subscript : Option String) (operator : String) (a : Arithmetic)
  /-- A step up or down; whether the value is the one before it. -/
  | step (name : String) (subscript : Option String) (change : Int) (isAfter : Bool)
  deriving Repr, Inhabited

namespace Arithmetic

/-- A part of an expression. -/
inductive Mark where
  | number (n : Int)
  | named (name : String) (subscript : Option String)
  | operator (s : String)
  deriving DecidableEq, Repr, Inhabited

/-- Why an expression has no value. -/
inductive Problem where
  | noOperand
  | notOver
  | openParenthesis
  | noColon
  | divisionByZero
  | badNumber (text : String)
  | badBase (text : String)
  | negativeExponent
  | notVariable
  deriving Repr, Inhabited

/-- The operators, longer ones before those that they start with. -/
def operators (isRich : Bool) : List String :=
  ["<<=", ">>="] ++ (if isRich then ["**", "++", "--"] else []) ++
    ["<<", ">>", "<=", ">=", "==", "!=", "&&", "||", "+=", "-=", "*=", "/=", "%=", "&=", "|=", "^=",
      "+", "-", "*", "/", "%", "<", ">", "=", "!", "~", "&", "|", "^", "?", ":", "(", ")"] ++
    (if isRich then [","] else [])

/-- The value of a digit in bases up to 64. -/
def digit? (base : Nat) (c : Char) : Option Nat :=
  let value? :=
    if c.isDigit then some (c.toNat - '0'.toNat)
    else if c.isLower then some (c.toNat - 'a'.toNat + 10)
    else if c.isUpper then some (c.toNat - 'A'.toNat + (if base ≤ 36 then 10 else 36))
    else if c = '@' then some 62
    else if c = '_' then some 63
    else none
  value?.filter (· < base)

/-- A number of the rich shell, which may name its base. -/
def richNumber (text : String) : Except Problem Int :=
  let inBase (base : Nat) (cs : List Char) : Except Problem Int :=
    match cs.foldlM (fun n c => (digit? base c).map (base * n + ·)) 0 with
    | some n => .ok (Numeral.wrap n)
    | none => .error (.badNumber text)
  match Octets.cut '#' text with
  | (base, some digits) =>
    match Numeral.decimal? base with
    | some b => if 2 ≤ b && b ≤ 64 then inBase b digits.toList else .error (.badBase text)
    | none => .error (.badNumber text)
  | (digits, none) =>
    match digits.toList with
    | '0' :: 'x' :: cs | '0' :: 'X' :: cs => inBase 16 cs
    | '0' :: c :: cs => inBase 8 (c :: cs)
    | cs => inBase 10 cs

/-- Takes an expression apart. -/
def marks (isRich : Bool) : (steps : Nat) → List Char → Except Problem (List Mark)
  | 0, _ => .ok []
  | _, [] => .ok []
  | steps + 1, c :: cs => do
    if Octets.isSpace c then marks isRich steps cs
    else if c.isDigit then
      if isRich then
        let isPart (c : Char) : Bool := c.isAlphanum || c = '#' || c = '@' || c = '_'
        let n ← richNumber (String.ofList ((c :: cs).takeWhile isPart))
        return .number n :: (← marks isRich steps ((c :: cs).dropWhile isPart))
      else
        let (n, rest) :=
          match c, cs with
          | '0', x :: y :: rest =>
            if (x = 'x' || x = 'X') && (Numeral.digitOf? 16 y).isSome then Numeral.leading 16 (y :: rest)
            else Numeral.leading 8 (c :: cs)
          | '0', cs => Numeral.leading 8 (c :: cs)
          | _, cs => Numeral.leading 10 (c :: cs)
        return .number (Numeral.clamp n) :: (← marks isRich steps rest)
    else if isNameStart c then
      let name := String.ofList ((c :: cs).takeWhile isNameRest)
      match isRich, (c :: cs).dropWhile isNameRest with
      | true, '[' :: rest =>
        let index := rest.takeWhile (· != ']')
        return .named name (some (String.ofList index)) ::
          (← marks isRich steps (rest.drop (index.length + 1)))
      | _, rest => return .named name none :: (← marks isRich steps rest)
    else
      match (operators isRich).find? fun o => o.toList.isPrefixOf (c :: cs) with
      | some o => return .operator o :: (← marks isRich steps ((c :: cs).drop o.length))
      | none => throw .noOperand

/-- How strongly an operator between two operands binds. -/
def strength? (operator : String) : Option Nat :=
  match operator with
  | "||" => some 1
  | "&&" => some 2
  | "|" => some 3
  | "^" => some 4
  | "&" => some 5
  | "==" | "!=" => some 6
  | "<" | ">" | "<=" | ">=" => some 7
  | "<<" | ">>" => some 8
  | "+" | "-" => some 9
  | "*" | "/" | "%" => some 10
  | "**" => some 11
  | _ => none

/-- The operators that give a variable a value. -/
def assignments : List String :=
  ["=", "+=", "-=", "*=", "/=", "%=", "<<=", ">>=", "&=", "|=", "^="]

/-- What is to be read of an expression. -/
inductive Stage where
  | list
  | assignment
  | choice
  /-- Operators that bind at least so strongly. -/
  | binary (strength : Nat)
  /-- The same, behind a first operand. -/
  | continued (strength : Nat) (a : Arithmetic)
  | unary
  | primary

/-- Reads an expression from its parts. -/
def parse (isRich : Bool) : (steps : Nat) → Stage → List Mark →
    Except Problem (Arithmetic × List Mark)
  | 0, _, _ => .error .noOperand
  | steps + 1, stage, ms =>
    match stage with
    | .list => do
      let (a, ms) ← parse isRich steps .assignment ms
      match ms with
      | .operator "," :: ms =>
        let (b, ms) ← parse isRich steps .list ms
        return (.binary "," a b, ms)
      | ms => return (a, ms)
    | .assignment =>
      match ms with
      | .named name index :: .operator o :: rest =>
        if assignments.contains o then do
          let (a, rest) ← parse isRich steps .assignment rest
          return (.assign name index (String.ofList o.toList.dropLast) a, rest)
        else parse isRich steps .choice ms
      | ms => parse isRich steps .choice ms
    | .choice => do
      let (a, ms) ← parse isRich steps (.binary 1) ms
      match ms with
      | .operator "?" :: ms =>
        let (b, ms) ← parse isRich steps .list ms
        match ms with
        | .operator ":" :: ms =>
          let (c, ms) ← parse isRich steps .assignment ms
          return (.choice a b c, ms)
        | _ => throw .noColon
      | ms => return (a, ms)
    | .binary strength => do
      let (a, ms) ← parse isRich steps .unary ms
      parse isRich steps (.continued strength a) ms
    | .continued strength a =>
      match ms with
      | .operator o :: rest =>
        match strength? o with
        | some s =>
          if strength ≤ s then do
            -- powers are read from the right
            let (b, rest) ← parse isRich steps (.binary (if o = "**" then s else s + 1)) rest
            parse isRich steps (.continued strength (.binary o a b)) rest
          else .ok (a, ms)
        | none => .ok (a, ms)
      | ms => .ok (a, ms)
    | .unary =>
      match ms with
      | .operator "++" :: .named name index :: rest => .ok (.step name index 1 false, rest)
      | .operator "--" :: .named name index :: rest => .ok (.step name index (-1) false, rest)
      | .operator o :: rest =>
        if ["!", "~", "+", "-"].contains o then do
          let (a, rest) ← parse isRich steps .unary rest
          return (.unary o a, rest)
        else parse isRich steps .primary ms
      | ms => parse isRich steps .primary ms
    | .primary =>
      match ms with
      | .number n :: rest => .ok (.number n, rest)
      | .named name index :: .operator "++" :: rest =>
        .ok (.step name index 1 true, rest)
      | .named name index :: .operator "--" :: rest =>
        .ok (.step name index (-1) true, rest)
      | .named name index :: rest => .ok (.named name index, rest)
      | .operator "(" :: rest => do
        let (a, rest) ← parse isRich steps .list rest
        match rest with
        | .operator ")" :: rest => return (a, rest)
        | _ => throw .openParenthesis
      | _ => .error .noOperand

/-- The expression that a text is. -/
def ofText (isRich : Bool) (text : String) : Except Problem Arithmetic := do
  let ms ← marks isRich (text.length + 1) text.toList
  if isRich && ms.isEmpty then return .number 0
  let (a, rest) ← parse isRich (16 * ms.length + 32) .list ms
  if rest.isEmpty then return a else throw .notOver

/-- A power of a number, by squares. -/
def power (a : Int) (n : Nat) : (steps : Nat) → Int
  | 0 => 1
  | steps + 1 =>
    if n = 0 then 1
    else
      let half := power (Numeral.wrap (a * a)) (n / 2) steps
      if n % 2 = 1 then Numeral.wrap (half * a) else half

/-- The value of an operator on two numbers; both were computed before. -/
def combine (operator : String) (a b : Int) : Except Problem Int :=
  let truth (p : Bool) : Except Problem Int := .ok (if p then 1 else 0)
  let bits (n : Int) : Nat := (n % Int.pow 2 64).toNat
  match operator with
  | "+" => .ok (Numeral.wrap (a + b))
  | "-" => .ok (Numeral.wrap (a - b))
  | "*" => .ok (Numeral.wrap (a * b))
  | "/" => if b = 0 then .error .divisionByZero else .ok (Numeral.wrap (Int.tdiv a b))
  | "%" => if b = 0 then .error .divisionByZero else .ok (Int.tmod a b)
  | "**" => if b < 0 then .error .negativeExponent else .ok (power a (b.toNat % Nat.pow 2 32) 64)
  | "<<" => .ok (Numeral.wrap (a * Int.pow 2 (b % 64).toNat))
  | ">>" => .ok (Int.fdiv a (Int.pow 2 (b % 64).toNat))
  | "<" => truth (decide (a < b))
  | ">" => truth (decide (b < a))
  | "<=" => truth (decide (a ≤ b))
  | ">=" => truth (decide (b ≤ a))
  | "==" => truth (a == b)
  | "!=" => truth (a != b)
  | "&" => .ok (Numeral.wrap ((bits a &&& bits b : Nat) : Int))
  | "|" => .ok (Numeral.wrap ((bits a ||| bits b : Nat) : Int))
  | "^" => .ok (Numeral.wrap ((bits a ^^^ bits b : Nat) : Int))
  | "&&" => truth (a != 0 && b != 0)
  | "||" => truth (a != 0 || b != 0)
  | _ => .ok b

/-- A problem in words. -/
def Problem.text (isRich : Bool) (source : String) : Problem → String
  | .noOperand =>
    if isRich then s!"{source}: syntax error: operand expected (error token is \"{source}\")"
    else s!"arithmetic expression: expecting primary: \"{source}\""
  | .notOver =>
    if isRich then s!"{source}: syntax error in expression (error token is \"{source}\")"
    else s!"arithmetic expression: expecting EOF: \"{source}\""
  | .openParenthesis =>
    if isRich then s!"{source}: missing \x60)' (error token is \"{source}\")"
    else s!"arithmetic expression: expecting ')': \"{source}\""
  | .noColon =>
    if isRich then s!"{source}: \x60:' expected for conditional expression"
    else s!"arithmetic expression: expecting ':': \"{source}\""
  | .divisionByZero =>
    if isRich then s!"{source}: division by 0 (error token is \"0\")"
    else s!"arithmetic expression: division by zero: \"{source}\""
  | .badNumber text =>
    if isRich then s!"{text}: value too great for base (error token is \"{text}\")"
    else s!"Illegal number: {text}"
  | .badBase text => s!"{text}: invalid arithmetic base (error token is \"{text}\")"
  | .negativeExponent => s!"{source}: exponent less than 0"
  | .notVariable => s!"{source}: attempted assignment to non-variable"

end Arithmetic

namespace Act

/-- How the elements of a variable are named. -/
def element (value : String → Act Int) (name index : String) : Act (Option String) := do
  match (← binding? name).bind (·.value?) with
  | some (.keyed es) => return es.lookup index
  | some v => return v.element? (← value index).toNat
  | none => return none

/-- Gives an element of a variable a text. -/
def assignElement (value : String → Act Int) (name index text : String) : Act Unit := do
  let name ← resolve name 8
  match (← binding? name).bind (·.value?) with
  | some (.keyed es) =>
    let es := if es.any (·.1 == index) then es.map fun e => if e.1 == index then (index, text) else e
      else es ++ [(index, text)]
    assign name (.keyed es)
  | some (.indexed es) =>
    let i ← value index
    let i := if i < 0 then (((es.getLast?.map (·.1 + 1)).getD 0 : Nat) : Int) + i else i
    assign name (.indexed (Value.insertAt i.toNat text es))
  | some (.text s) => assign name (.indexed (Value.insertAt (← value index).toNat text [(0, s)]))
  | none => assign name (.indexed [((← value index).toNat, text)])

/-- The value of a computation, unless it has a problem. -/
def settle (source : String) (r : Except Arithmetic.Problem Int) : Act Int := do
  match r with
  | .ok n => return n
  | .error p =>
    let isRich ← isRich
    fail (if isRich then 1 else 2) (p.text isRich source)

/-- Gives a variable or an element of it a number. -/
def store (value : String → Act Int) (name : String) (index? : Option String) (n : Int) :
    Act Unit := do
  match index? with
  | some index => assignElement value name index (toString n)
  | none => assignText name (toString n)

/-- The value of a variable or of an element of it. -/
def load (value : String → Act Int) (name : String) (index? : Option String) : Act Int := do
  let text? ←
    match index? with
    | some index => element value name index
    | none => do
      match ← parameter? name with
      | none =>
        if ← isOn "nounset" then
          if ← isRich then fail 1 s!"{name}: unbound variable" else fail 2 s!"{name}: parameter not set"
        else pure none
      | text? => pure text?
  value (text?.getD "")

/-- The value of an expression, in which the texts of variables have values of their
own. -/
def compute (value : String → Act Int) (source : String) : Arithmetic → Act Int
  | .number n => return n
  | .named name index? => load value name index?
  | .unary operator a => do
    let n ← compute value source a
    match operator with
    | "-" => return Numeral.wrap (-n)
    | "~" => return Numeral.wrap (-n - 1)
    | "!" => return if n = 0 then 1 else 0
    | _ => return n
  | .binary operator a b => do
    let m ← compute value source a
    if operator = "&&" && m = 0 then return 0
    if operator = "||" && m != 0 then return 1
    let n ← compute value source b
    settle source (Arithmetic.combine operator m n)
  | .choice condition a b => do
    if (← compute value source condition) != 0 then compute value source a
    else compute value source b
  | .assign name index? operator a => do
    let n ← compute value source a
    let n ←
      if operator = "" then pure n
      else do
        let old ← load value name index?
        settle source (Arithmetic.combine operator old n)
    store value name index? n
    return n
  | .step name index? change isAfter => do
    let old ← load value name index?
    let new := Numeral.wrap (old + change)
    store value name index? new
    return if isAfter then old else new

/-- The value of a text as an expression. -/
def evaluateText : (depth : Nat) → String → Act Int
  | 0, text => fail 1 s!"{text}: expression recursion level exceeded"
  | depth + 1, text => do
    let isRich ← isRich
    match Arithmetic.ofText isRich text with
    | .error p => fail (if isRich then 1 else 2) (p.text isRich text)
    | .ok a =>
      let value (s : String) : Act Int := do
        if isRich then evaluateText depth s
        else if s.all Octets.isSpace then return 0
        else
          let cs := s.toList.dropWhile Octets.isSpace
          let cs := (cs.reverse.dropWhile Octets.isSpace).reverse
          match Numeral.signedConstant? cs with
          | some n => return Numeral.clamp n
          | none => fail 2 s!"Illegal number: {s}"
      compute value text a

/-- The value of an expression. -/
def arithmetic (text : String) : Act Int := evaluateText 64 text

end Act

end Unnest.Host.Shell
