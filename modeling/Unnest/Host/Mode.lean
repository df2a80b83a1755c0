import Unnest.Host.Numeral

/-!
# Permissions

Permissions are given as a number in base eight, or as changes: for whom, whether to
give, to take or to set, and what.  A change without anybody is one for all, except for
what the mask of the process keeps back.
-/

namespace Unnest.Host.Mode

/-- A change of permissions. -/
structure Change where
  /-- The places of those that the change is for, each three bits wide. -/
  who : Nat
  /-- Whether nobody was named, so that the mask applies. -/
  isMasked : Bool
  sign : Char
  /-- What is changed, in the lowest three bits. -/
  what : Nat
  /-- Whether running is only given where somebody has it, or to directories. -/
  isConditional : Bool := false
  /-- Whose permissions are taken over. -/
  copied? : Option Nat := none
  /-- The bits above the permissions, which belong to those that are named. -/
  special : Nat := 0
  deriving Repr, Inhabited

/-- The bits of those that a letter names. -/
def who? (c : Char) : Option Nat :=
  match c with
  | 'u' => some 0o700
  | 'g' => some 0o070
  | 'o' => some 0o007
  | 'a' => some 0o777
  | _ => none

/-- Reads what is changed. -/
def readWhat (change : Change) : List Char → Change
  | [] => change
  | c :: cs =>
    let change :=
      match c with
      | 'r' => { change with what := change.what ||| 4 }
      | 'w' => { change with what := change.what ||| 2 }
      | 'x' => { change with what := change.what ||| 1 }
      | 'X' => { change with isConditional := true }
      | 's' =>
        { change with
          special := change.special ||| (if change.who &&& 0o700 != 0 then 0o4000 else 0) |||
            (if change.who &&& 0o070 != 0 then 0o2000 else 0) }
      | 't' => { change with special := change.special ||| 0o1000 }
      | 'u' => { change with copied? := some 6 }
      | 'g' => { change with copied? := some 3 }
      | 'o' => { change with copied? := some 0 }
      | _ => change
    readWhat change cs

/-- Reads the changes for the same people, each behind its sign. -/
def readActions (who : Nat) (isMasked : Bool) : (steps : Nat) → List Char → Option (List Change)
  | 0, _ => none
  | _, [] => some []
  | steps + 1, sign :: cs =>
    if sign = '+' || sign = '-' || sign = '=' then
      let what := cs.takeWhile fun c => "rwxXstugo".toList.contains c
      (readActions who isMasked steps (cs.drop what.length)).map fun changes =>
        readWhat { who, isMasked, sign, what := 0 } what :: changes
    else none

/-- Reads one clause: people and changes for them. -/
def readClause (clause : String) : Option (List Change) :=
  let cs := clause.toList
  let people := cs.takeWhile fun c => (who? c).isSome
  let who := people.foldl (fun n c => n ||| (who? c).getD 0) 0
  let rest := cs.drop people.length
  if rest.isEmpty then none
  else readActions (if people.isEmpty then 0o777 else who) people.isEmpty (rest.length + 1) rest

/-- What a text changes permissions to, if it can be read. -/
inductive Spec where
  | number (n : Nat)
  | changes (cs : List Change)
  deriving Repr, Inhabited

/-- Reads permissions. -/
def read? (text : String) : Option Spec :=
  match Numeral.inBase? 8 text.toList with
  | some n => if n ≤ 0o7777 then some (.number n) else none
  | none =>
    if text = "" then none
    else ((Octets.split (· == ',') text).mapM readClause).map fun cs => .changes cs.flatten

/-- Applies a change. -/
def Change.apply (mask : Nat) (isDirectory : Bool) (mode : Nat) (c : Change) : Nat :=
  let base :=
    match c.copied? with
    | some place => (mode >>> place) &&& 7
    | none => c.what
  let base := if c.isConditional && (isDirectory || mode &&& 0o111 != 0) then base ||| 1 else base
  let spread := (base ||| base <<< 3 ||| base <<< 6) &&& c.who
  let bits := (if c.isMasked then spread - (spread &&& mask) else spread) ||| c.special
  match c.sign with
  | '+' => mode ||| bits
  | '-' => mode - (mode &&& bits)
  | _ =>
    let kept := mode - (mode &&& c.who)
    kept ||| bits

/-- The permissions that follow from others. -/
def Spec.apply (s : Spec) (mask : Nat) (isDirectory : Bool) (mode : Nat) : Nat :=
  match s with
  | .number n => n
  | .changes cs => cs.foldl (Change.apply mask isDirectory) mode

/-- The letters of permissions, as a list of files shows them. -/
def letters (mode : Nat) : String :=
  let three (shift special : Nat) (set clear : Char) : String :=
    let n := (mode >>> shift) &&& 7
    (if n &&& 4 != 0 then "r" else "-") ++ (if n &&& 2 != 0 then "w" else "-") ++
      (if mode &&& special != 0 then (if n &&& 1 != 0 then set else clear).toString
        else if n &&& 1 != 0 then "x" else "-")
  three 6 0o4000 's' 'S' ++ three 3 0o2000 's' 'S' ++ three 0 0o1000 't' 'T'

/-- A mode with four digits in base eight. -/
def octal (mode : Nat) : String := Octets.padLeft '0' 4 (Numeral.digits 8 mode)

end Unnest.Host.Mode
