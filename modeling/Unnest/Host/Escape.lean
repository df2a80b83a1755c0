import Unnest.Host.Numeral

/-!
# Escapes

A backslash in a text gives the character behind it another meaning.  Which ones have
one, and whether the numbers of octets start with a nought, differs between the places
where escapes are read.  A backslash without a meaning stays.
-/

namespace Unnest.Host

/-- Which escapes are read. -/
structure EscapeRules where
  /-- Whether a nought stands in front of the three digits of a number. -/
  hasLeadingNought : Bool := false
  /-- Whether numbers without a nought are read. -/
  hasPlainOctal : Bool := true
  /-- Whether `x` and `u` start numbers in base sixteen. -/
  hasHex : Bool := false
  /-- Whether `c` ends all that is printed. -/
  hasStop : Bool := false
  /-- The characters that a backslash hides, and itself with them. -/
  hidden : List Char := ['\\']

namespace EscapeRules

/-- The characters that are written as a backslash and a letter. -/
def letters : List (Char × Char) :=
  [('a', '\x07'), ('b', '\x08'), ('e', '\x1b'), ('f', '\x0c'), ('n', '\n'), ('r', '\r'), ('t', '\t'),
    ('v', '\x0b')]

/-- Up to some digits of a base, as a number, and the rest; `none` if there is no digit. -/
def number? (base most : Nat) (cs : List Char) : Option (Nat × List Char) :=
  let digits := (cs.take most).takeWhile fun c => (Numeral.digitOf? base c).isSome
  (Numeral.inBase? base digits).map fun n => (n, cs.drop digits.length)

/-- An octet by its number. -/
def octet (n : Nat) : Char := Char.ofNat (n % 256)

/-- A character by its number.  One that is no octet is shown as the escape that it
was. -/
def character (n : Nat) : List Char :=
  if n < 128 then [Char.ofNat n]
  else if n < 65536 then ("\\u" ++ Octets.padLeft '0' 4 (Numeral.capitalDigits 16 n)).toList
  else ("\\U" ++ Octets.padLeft '0' 8 (Numeral.capitalDigits 16 n)).toList

/-- What an escape stands for, given what follows the backslash, and the rest. -/
def escape? (r : EscapeRules) : List Char → Option (List Char × List Char)
  | '0' :: cs =>
    if r.hasLeadingNought then
      match number? 8 3 cs with
      | some (n, cs) => some ([octet n], cs)
      | none => some (['\x00'], cs)
    else if r.hasPlainOctal then (number? 8 3 ('0' :: cs)).map fun (n, cs) => ([octet n], cs)
    else none
  | 'x' :: cs => if r.hasHex then (number? 16 2 cs).map fun (n, cs) => ([octet n], cs) else none
  | 'u' :: cs =>
    if r.hasHex then (number? 16 4 cs).map fun (n, cs) => (character n, cs) else none
  | 'U' :: cs =>
    if r.hasHex then (number? 16 8 cs).map fun (n, cs) => (character n, cs) else none
  | c :: cs =>
    if r.hidden.contains c then some ([c], cs)
    else
      match (if c = 'E' && r.hasHex then some '\x1b' else letters.lookup c) with
      | some special => some ([special], cs)
      | none =>
        if r.hasPlainOctal then (number? 8 3 (c :: cs)).map fun (n, cs) => ([octet n], cs) else none
  | [] => none

/-- Reads the escapes of a text; whether it was read to its end. -/
def readFrom (r : EscapeRules) : (steps : Nat) → List Char → List Char × Bool
  | 0, cs => (cs, true)
  | _, [] => ([], true)
  | steps + 1, '\\' :: cs =>
    match cs, r.hasStop with
    | 'c' :: _, true => ([], false)
    | cs, _ =>
      match r.escape? cs with
      | some (text, cs) =>
        let (rest, isWhole) := readFrom r steps cs
        (text ++ rest, isWhole)
      | none =>
        let (rest, isWhole) := readFrom r steps cs
        ('\\' :: rest, isWhole)
  | steps + 1, c :: cs =>
    let (rest, isWhole) := readFrom r steps cs
    (c :: rest, isWhole)

/-- A text with its escapes read; whether it was read to its end. -/
def read (r : EscapeRules) (text : String) : String × Bool :=
  let (cs, isWhole) := r.readFrom text.length text.toList
  (String.ofList cs, isWhole)

end EscapeRules

end Unnest.Host
