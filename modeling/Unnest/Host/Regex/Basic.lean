import Unnest.Host.Pattern

/-!
# Regular expressions

An expression is matched with a text at a place, by going through both and coming back
where that fails.  Of several ways to match the longest counts, which has to be looked
for only where an expression has alternatives or repeats a group: everywhere else the
first way found, which takes as much as it can at each place, is the longest.

Matching is written with what has to follow: a match of a part hands the place behind it
on to its continuation.
-/

namespace Unnest.Host

/-- A regular expression. -/
inductive Regex where
  | nothing
  | char (c : Char)
  | any
  | set (isNegated : Bool) (items : List SetItem)
  | sequence (a b : Regex)
  | either (a b : Regex)
  | repeated (a : Regex) (least : Nat) (most? : Option Nat)
  | group (number : Nat) (a : Regex)
  /-- What a group has matched, once more. -/
  | again (number : Nat)
  | start
  | stop
  | textStart
  | textStop
  | wordStart
  | wordStop
  | wordEdge
  | noWordEdge
  deriving Repr, Inhabited

namespace Regex

/-- What a group has matched, and where that starts. -/
structure Capture where
  first : Nat
  text : List Char
  deriving DecidableEq, Repr, Inhabited

/-- A place in a text, with what was captured on the way to it. -/
structure Spot where
  offset : Nat
  before? : Option Char
  rest : List Char
  /-- What the groups have matched, by their numbers. -/
  captures : List (Nat × Capture) := []
  deriving Repr, Inhabited

/-- How an expression is matched. -/
structure Rules where
  ignoresCase : Bool := false
  /-- Whether ends of lines inside of the text count as its ends. -/
  isMultiline : Bool := false
  /-- Whether the longest of all matches is looked for. -/
  isExhaustive : Bool := false
  deriving Repr, Inhabited

/-- Whether alternatives of different lengths can occur. -/
def needsAll : Regex → Bool
  | .either _ _ => true
  | .repeated a _ _ =>
    match a with
    | .char _ | .any | .set _ _ => false
    | _ => true
  | .sequence a b => needsAll a || needsAll b
  | .group _ a => needsAll a
  | _ => false

/-- Whether a character belongs to a word. -/
def isWordChar (c : Char) : Bool := c.isAlphanum || c = '_'

/-- Whether an expression of one character matches one; `none` for all others. -/
def single? (r : Rules) : Regex → Option (Char → Bool)
  | .char c =>
    some fun d => if r.ignoresCase then c.toLower == d.toLower else c == d
  | .any => some fun _ => true
  | .set isNegated items =>
    some fun d =>
      (items.any fun i => i.holds d || (r.ignoresCase && (i.holds d.toLower || i.holds d.toUpper))) != isNegated
  | _ => none

namespace Spot

/-- The place behind the next character. -/
def next (s : Spot) : Spot :=
  match s.rest with
  | c :: cs => { s with offset := s.offset + 1, before? := some c, rest := cs }
  | [] => s

/-- The place behind a number of characters. -/
def skip (s : Spot) (count : Nat) : Spot :=
  if count = 0 then s
  else
    { s with
      offset := s.offset + count, before? := (s.rest.drop (count - 1)).head?, rest := s.rest.drop count }

def isAfterWord (s : Spot) : Bool := s.before?.any isWordChar

def isBeforeWord (s : Spot) : Bool := s.rest.head?.any isWordChar

end Spot

/-- The better of two results: where all are looked for, the longer one, and otherwise
the first. -/
def better (r : Rules) (a : Option Spot) (b : Unit → Option Spot) : Option Spot :=
  match a with
  | none => b ()
  | some s =>
    if !r.isExhaustive || s.rest.isEmpty then some s
    else
      match b () with
      | some t => if s.offset < t.offset then some t else some s
      | none => some s

/-- The best result of going on behind `count` characters or fewer, down to `least`. -/
def tryCounts (r : Rules) (s : Spot) (least : Nat) (after : Spot → Option Spot) : (count : Nat) → Option Spot
  | 0 => if least = 0 then after s else none
  | count + 1 =>
    if count + 1 < least then none
    else better r (after (s.skip (count + 1))) fun _ => tryCounts r s least after count

/-- Matches an expression at a place and goes on behind it. -/
def matchAt (r : Rules) : (steps : Nat) → Regex → Spot → (after : Spot → Option Spot) → Option Spot
  | 0, _, _, _ => none
  | steps + 1, e, s, after =>
    match e with
    | .nothing => after s
    | .char c =>
      match s.rest with
      | d :: _ =>
        if (if r.ignoresCase then c.toLower == d.toLower else c == d) then after s.next else none
      | [] => none
    | .any => if s.rest.isEmpty then none else after s.next
    | .set isNegated items =>
      match s.rest with
      | d :: _ =>
        if ((single? r (.set isNegated items)).any fun f => f d) then after s.next else none
      | [] => none
    | .sequence a b => matchAt r steps a s fun t => matchAt r steps b t after
    | .either a b => better r (matchAt r steps a s after) fun _ => matchAt r steps b s after
    | .group n a =>
      matchAt r steps a s fun t =>
        let c : Capture := ⟨s.offset, s.rest.take (t.offset - s.offset)⟩
        after { t with captures := (n, c) :: t.captures.filter (·.1 != n) }
    | .again n =>
      match s.captures.lookup n with
      | none => none
      | some c =>
        let fold (cs : List Char) : List Char := if r.ignoresCase then cs.map Char.toLower else cs
        if (fold c.text).isPrefixOf (fold s.rest) then after (s.skip c.text.length) else none
    | .repeated a least most? =>
      match single? r a with
      | some f =>
        let run := (s.rest.takeWhile f).length
        let count :=
          match most? with
          | some most => min most run
          | none => run
        tryCounts r s least after count
      | none =>
        if most? == some 0 then after s
        else
          let once (least : Nat) : Option Spot :=
            matchAt r steps a s fun t =>
              if t.offset = s.offset && least = 0 then none
              else matchAt r steps (.repeated a (least - 1) (most?.map (· - 1))) t after
          if least = 0 then better r (once 0) fun _ => after s else once least
    | .start =>
      if s.before?.isNone || (r.isMultiline && s.before? == some '\n') then after s else none
    | .stop =>
      if s.rest.isEmpty || (r.isMultiline && s.rest.head? == some '\n') then after s else none
    | .textStart => if s.before?.isNone then after s else none
    | .textStop => if s.rest.isEmpty then after s else none
    | .wordStart => if !s.isAfterWord && s.isBeforeWord then after s else none
    | .wordStop => if s.isAfterWord && !s.isBeforeWord then after s else none
    | .wordEdge => if s.isAfterWord != s.isBeforeWord then after s else none
    | .noWordEdge => if s.isAfterWord == s.isBeforeWord then after s else none

/-! ## Searching -/

/-- A bound for the parts of an expression that a match goes through. -/
def extent : Regex → Nat
  | .sequence a b | .either a b => a.extent + b.extent + 1
  | .repeated a least most? => (a.extent + 1) * (max least (most?.getD 0) + 2)
  | .group _ a => a.extent + 1
  | _ => 1

/-- A match: where it starts, and the place behind it. -/
structure Match where
  first : Nat
  stop : Spot
  deriving Repr, Inhabited

namespace Match

/-- The offset behind a match. -/
def last (m : Match) : Nat := m.stop.offset

def length (m : Match) : Nat := m.last - m.first

/-- The text that a group has matched. -/
def group (m : Match) (n : Nat) : List Char := ((m.stop.captures.lookup n).map (·.text)).getD []

end Match

/-- The first match at a place or behind it. -/
def searchFrom (r : Rules) (e : Regex) (bound : Nat) : (steps : Nat) → Spot → Option Match
  | 0, _ => none
  | steps + 1, s =>
    match matchAt r bound e { s with captures := [] } Option.some with
    | some t => some { first := s.offset, stop := t }
    | none => if s.rest.isEmpty then none else searchFrom r e bound steps s.next

/-- The leftmost match from a place on, and the longest of those. -/
def search (r : Rules) (e : Regex) (s : Spot) : Option Match :=
  let length := s.rest.length
  searchFrom { r with isExhaustive := e.needsAll } e ((e.extent + 2) * (length + 2)) (length + 1) s

/-- The leftmost match in a text. -/
def searchText (r : Rules) (e : Regex) (text : List Char) : Option Match :=
  search r e { offset := 0, before? := none, rest := text }

/-- Whether an expression matches somewhere in a text. -/
def isIn (r : Rules) (e : Regex) (text : List Char) : Bool := (searchText r e text).isSome

end Regex

end Unnest.Host
