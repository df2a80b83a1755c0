import Unnest.Host.Numeral
import Unnest.Host.Shell.Command

/-!
# Braces

In the rich shell a word can stand for several: alternatives between braces, or the
numbers or letters from one to another.  This is done on the text of the word, before
anything in it is expanded; parts that are no plain text are carried along.
-/

namespace Unnest.Host.Shell

/-- A character of a word, or a part that is no plain text. -/
inductive Atom where
  | char (c : Char)
  | piece (p : Piece)
  deriving Inhabited

namespace Atom

/-- The atoms of a word. -/
def ofWord : Word → List Atom
  | [] => []
  | .text s :: ps => s.toList.map .char ++ ofWord ps
  | p :: ps => .piece p :: ofWord ps

/-- The word of some atoms. -/
def toWord : List Atom → Word
  | [] => []
  | .char c :: as =>
    match toWord as with
    | .text s :: ps => .text (c.toString ++ s) :: ps
    | ps => .text c.toString :: ps
  | .piece p :: as => p :: toWord as

/-- Whether an atom is a character. -/
def isChar (c : Char) : Atom → Bool
  | .char d => d == c
  | .piece _ => false

/-- The alternatives up to the brace that closes them, and what follows it. -/
def alternatives : (depth : Nat) → (current : List Atom) → List Atom →
    Option (List (List Atom) × List Atom)
  | _, _, [] => none
  | depth, current, a :: as =>
    if a.isChar '\x7b' then alternatives (depth + 1) (a :: current) as
    else if a.isChar '\x7d' then
      match depth with
      | 0 => some ([current.reverse], as)
      | depth + 1 => alternatives depth (a :: current) as
    else if a.isChar ',' && depth = 0 then
      (alternatives depth [] as).map fun (parts, rest) => (current.reverse :: parts, rest)
    else alternatives depth (a :: current) as

/-- The text of atoms that are all characters. -/
def text? (as : List Atom) : Option (List Char) :=
  as.mapM fun a =>
    match a with
    | .char c => some c
    | .piece _ => none

/-- The pieces of a text between pairs of points. -/
def ranges : List Char → List (List Char)
  | [] => [[]]
  | '.' :: '.' :: cs => [] :: ranges cs
  | c :: cs =>
    match ranges cs with
    | [] => [[c]]
    | p :: ps => (c :: p) :: ps

/-- The numbers from one to another by steps. -/
def counted (first last step : Int) : List Int :=
  let step : Nat := max 1 step.natAbs
  let count := (last - first).natAbs / step + 1
  (List.range count).map fun n =>
    if first ≤ last then first + (n * step : Nat) else first - (n * step : Nat)

/-- A number with noughts up to a width. -/
def padded (width : Nat) (n : Int) : String :=
  if n < 0 then "-" ++ Octets.padLeft '0' (width - 1) (toString n.natAbs)
  else Octets.padLeft '0' width (toString n)

/-- Whether a numeral starts with a nought that is kept. -/
def isPadded (cs : List Char) : Bool :=
  match cs with
  | '0' :: _ :: _ => true
  | '-' :: '0' :: _ :: _ => true
  | _ => false

/-- What a text between braces counts, if it counts something. -/
def sequence? (as : List Atom) : Option (List String) := do
  let parts := ranges (← text? as)
  let (first, last, step) ←
    match parts with
    | [a, b] => some (a, b, ['1'])
    | [a, b, c] => some (a, b, c)
    | _ => none
  let step ← Numeral.integer? (String.ofList step)
  match Numeral.integer? (String.ofList first), Numeral.integer? (String.ofList last) with
  | some m, some n =>
    let width := if isPadded first || isPadded last then max first.length last.length else 0
    return (counted m n step).map (padded width)
  | _, _ =>
    match first, last with
    | [c], [d] =>
      if c.isAlpha && d.isAlpha then
        return (counted c.toNat d.toNat step).map fun n => (Char.ofNat n.toNat).toString
      else none
    | _, _ => none

/-- All that a text with braces stands for. -/
def expand : (steps : Nat) → List Atom → List (List Atom)
  | 0, as => [as]
  | _, [] => [[]]
  | steps + 1, a :: as =>
    let single : List (List Atom) := (expand steps as).map (a :: ·)
    if !a.isChar '\x7b' then single
    else
      match alternatives 0 [] as with
      | none => single
      | some ([part], rest) =>
        match sequence? part with
        | some texts =>
          let rests := expand steps rest
          texts.flatMap fun t => rests.map fun r => t.toList.map .char ++ r
        | none => single
      | some (parts, rest) =>
        let rests := expand steps rest
        (parts.flatMap (expand steps)).flatMap fun p => rests.map (p ++ ·)

end Atom

/-- The words that a word with braces stands for. -/
def Word.unbraced (w : Word) : List Word :=
  let as := Atom.ofWord w
  if as.any (·.isChar '\x7b') then (Atom.expand (as.length + 1) as).map Atom.toWord else [w]

end Unnest.Host.Shell
