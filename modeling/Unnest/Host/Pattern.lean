import Unnest.Host.Files

/-!
# Patterns

A pattern of a shell matches whole texts: a star any text, a question mark any octet,
brackets one octet of a set.  In rich patterns a sign before a group in parentheses says
how often one of its alternatives is to occur.  Which characters of a pattern are signs
depends on how they were written, so a pattern is made from `Glyph`s, characters that
know whether they only mean themselves.

Matching goes through the text from left to right and comes back where it fails; it is
bounded by the lengths of both.
-/

namespace Unnest.Host

/-- A character that may only mean itself. -/
structure Glyph where
  char : Char
  isLiteral : Bool
  deriving DecidableEq, Repr, Inhabited

namespace Glyph

/-- The characters of a text, as signs where they can be. -/
def active (s : String) : List Glyph := s.toList.map (⟨·, false⟩)

/-- The characters of a text, which mean only themselves. -/
def literal (s : String) : List Glyph := s.toList.map (⟨·, true⟩)

/-- The text of glyphs. -/
def text (gs : List Glyph) : String := String.ofList (gs.map (·.char))

/-- Whether a glyph is a sign. -/
def isSign (g : Glyph) (c : Char) : Bool := !g.isLiteral && g.char == c

end Glyph

/-- The named classes of octets. -/
def octetClass? (name : String) : Option (Char → Bool) :=
  match name with
  | "alpha" => some Char.isAlpha
  | "digit" => some Char.isDigit
  | "alnum" => some Char.isAlphanum
  | "upper" => some Char.isUpper
  | "lower" => some Char.isLower
  | "space" => some Octets.isSpace
  | "blank" => some Octets.isBlank
  | "punct" => some fun c => Octets.isPrintable c && c != ' ' && !c.isAlphanum
  | "print" => some Octets.isPrintable
  | "graph" => some fun c => Octets.isPrintable c && c != ' '
  | "cntrl" => some fun c => decide (c.toNat < 32) || c.toNat == 127
  | "xdigit" => some fun c => c.isDigit || (Char.toLower c ≥ 'a' && Char.toLower c ≤ 'f')
  | _ => none

/-- A member of a set of octets. -/
inductive SetItem where
  | range (first last : Char)
  | named (name : String)
  deriving DecidableEq, Repr

/-- Whether an octet is a member. -/
def SetItem.holds (c : Char) : SetItem → Bool
  | .range first last => decide (first ≤ c) && decide (c ≤ last)
  | .named name => (octetClass? name).any fun f => f c

/-- A pattern, as a list of what has to follow each other. -/
inductive PatternItem where
  | char (c : Char)
  | any
  | star
  | set (isNegated : Bool) (items : List SetItem)
  /-- Alternatives, and the sign that says how often one of them occurs. -/
  | group (sign : Char) (alternatives : List (List PatternItem))
  deriving Repr, Inhabited

abbrev Pattern := List PatternItem

namespace Pattern

/-- The name of a class of octets between colons and brackets, and what follows. -/
def className? : List Glyph → Option (String × List Glyph)
  | gs =>
    let name := gs.takeWhile fun g => g.char.isAlpha
    match gs.drop name.length with
    | c :: b :: rest => if c.isSign ':' && b.isSign ']' then some (Glyph.text name, rest) else none
    | _ => none

/-- Reads the members of a set up to its bracket; `none` if it is not closed. -/
def readSet : (steps : Nat) → (isFirst : Bool) → List Glyph → Option (List SetItem × List Glyph)
  | 0, _, _ => none
  | _, _, [] => none
  | steps + 1, isFirst, g :: gs =>
    if g.isSign ']' && !isFirst then some ([], gs)
    else
      let class? :=
        match gs with
        | c :: rest => if g.isSign '[' && c.isSign ':' then className? rest else none
        | [] => none
      match class? with
      | some (name, rest) =>
        (readSet steps false rest).map fun (items, rest) => (.named name :: items, rest)
      | none =>
        -- a backslash hides the character behind it
        let (first, gs) :=
          match gs with
          | next :: rest => if g.isSign '\\' then (next.char, rest) else (g.char, gs)
          | [] => (g.char, gs)
        match gs with
        | dash :: last :: rest =>
          if dash.isSign '-' && !last.isSign ']' then
            let (last, rest) :=
              match rest with
              | next :: rest' => if last.isSign '\\' then (next.char, rest') else (last.char, rest)
              | [] => (last.char, rest)
            (readSet steps false rest).map fun (items, rest) => (.range first last :: items, rest)
          else (readSet steps false gs).map fun (items, rest) => (.range first first :: items, rest)
        | _ => (readSet steps false gs).map fun (items, rest) => (.range first first :: items, rest)

/-- The alternatives of a group up to its parenthesis, and what follows. -/
def splitGroup : (depth : Nat) → (current : List Glyph) → List Glyph →
    Option (List (List Glyph) × List Glyph)
  | _, _, [] => none
  | depth, current, g :: gs =>
    if g.isSign ')' then
      match depth with
      | 0 => some ([current.reverse], gs)
      | depth + 1 => splitGroup depth (g :: current) gs
    else if g.isSign '(' then splitGroup (depth + 1) (g :: current) gs
    else if g.isSign '|' && depth = 0 then
      (splitGroup depth [] gs).map fun (parts, rest) => (current.reverse :: parts, rest)
    else splitGroup depth (g :: current) gs

/-- Reads a pattern.  Groups are read only in a rich one, and a caret negates a set only
there. -/
def read (isRich : Bool) : (steps : Nat) → List Glyph → Pattern
  | 0, _ => []
  | _, [] => []
  | steps + 1, g :: gs =>
    let group? :=
      match gs with
      | p :: rest =>
        if isRich && !g.isLiteral && "?*+@!".toList.contains g.char && p.isSign '(' then
          splitGroup 0 [] rest
        else none
      | [] => none
    match group? with
    | some (parts, rest) => .group g.char (parts.map (read isRich steps)) :: read isRich steps rest
    | none =>
      if g.isSign '*' then .star :: read isRich steps gs
      else if g.isSign '?' then .any :: read isRich steps gs
      else if g.isSign '\\' then
        match gs with
        | next :: gs => .char next.char :: read isRich steps gs
        | [] => [.char '\\']
      else if g.isSign '[' then
        let isNegated := gs.head?.any fun n => n.isSign '!' || (isRich && n.isSign '^')
        match readSet (gs.length + 1) true (if isNegated then gs.tail else gs) with
        | some (items, rest) => .set isNegated items :: read isRich steps rest
        | none => .char '[' :: read isRich steps gs
      else .char g.char :: read isRich steps gs

/-- A pattern from glyphs. -/
def ofGlyphs (isRich : Bool) (gs : List Glyph) : Pattern := read isRich (gs.length + 1) gs

/-- Whether a pattern matches nothing but one text. -/
def isPlain (p : Pattern) : Bool := p.all (· matches .char _)

/-- Matches a pattern with the start of a text, where `after` says whether what is left
will do. -/
def matchWith (sameCase : Char → Char) :
    (steps : Nat) → Pattern → List Char → (after : List Char → Bool) → Bool
  | 0, _, _, _ => false
  | _ + 1, [], cs, after => after cs
  | steps + 1, item :: p, cs, after =>
    let rest (cs : List Char) : Bool := matchWith sameCase steps p cs after
    match item, cs with
    | .char c, d :: cs => sameCase c == sameCase d && rest cs
    | .any, _ :: cs => rest cs
    | .set isNegated items, d :: cs =>
      (items.any fun i => i.holds d || i.holds (sameCase d)) != isNegated && rest cs
    | .star, [] => rest []
    | .star, d :: cs => rest (d :: cs) || matchWith sameCase steps (.star :: p) cs after
    | .group sign alternatives, cs =>
      let once (after : List Char → Bool) : Bool :=
        alternatives.any fun a => matchWith sameCase steps a cs after
      match sign with
      | '@' => once rest
      | '?' => rest cs || once rest
      | '*' | '+' =>
        (sign == '*' && rest cs) || once fun left =>
          rest left || (decide (left.length < cs.length) &&
            matchWith sameCase steps (.group '*' alternatives :: p) left after)
      | _ =>
        -- any start of the text that is none of the alternatives
        (List.range (cs.length + 1)).any fun n =>
          let start := cs.take n
          !(alternatives.any fun a => matchWith sameCase steps a start fun left => left.isEmpty) &&
            rest (cs.drop n)
    | _, [] => false

/-- How many steps a match can take in depth. -/
def depthFor (p : Pattern) (cs : List Char) : Nat := (p.length + 64) * (cs.length + 2)

/-- Whether a pattern matches a text. -/
def isMatch (p : Pattern) (cs : List Char) : Bool :=
  matchWith id (depthFor p cs) p cs fun left => left.isEmpty

/-- Whether a pattern matches a text where letters may differ in case. -/
def isMatchAnyCase (p : Pattern) (cs : List Char) : Bool :=
  matchWith Char.toLower (depthFor p cs) p cs fun left => left.isEmpty

/-- The lengths of the starts of a text that a pattern matches, from the shortest on. -/
def startLengths (p : Pattern) (cs : List Char) : List Nat :=
  (List.range (cs.length + 1)).filter fun n => isMatch p (cs.take n)

/-- The lengths of the ends of a text that a pattern matches, from the shortest on. -/
def endLengths (p : Pattern) (cs : List Char) : List Nat :=
  (List.range (cs.length + 1)).filter fun n => isMatch p (cs.drop (cs.length - n))

end Pattern

/-! ## Names of files -/

namespace Glyph

/-- Whether glyphs have a sign that can match more than one text. -/
def hasSigns (isRich : Bool) : List Glyph → Bool
  | [] => false
  | g :: gs =>
    (!g.isLiteral && (g.char = '*' || g.char = '?' ||
      (g.char = '[' && gs.any fun h => h.isSign ']') ||
      (isRich && "+@!".toList.contains g.char && gs.head?.any fun h => h.isSign '('))) || hasSigns isRich gs

/-- Glyphs between slashes. -/
def pieces : List Glyph → List (List Glyph)
  | [] => [[]]
  | g :: gs =>
    match pieces gs with
    | [] => [[g]]
    | p :: ps => if g.char = '/' then [] :: p :: ps else (g :: p) :: ps

/-- The text of glyphs without the backslashes that hide characters. -/
def plainText : List Glyph → String
  | [] => ""
  | [g] => g.char.toString
  | g :: h :: gs =>
    if g.isSign '\\' then h.char.toString ++ plainText gs
    else g.char.toString ++ plainText (h :: gs)

end Glyph

/-- How names of files are matched. -/
structure NameRules where
  /-- Whether groups are read in patterns. -/
  isRich : Bool
  /-- Whether the two names that every directory has can be matched. -/
  hasDots : Bool
  /-- Whether names that start with a dot are matched by signs. -/
  showsHidden : Bool := false
  /-- Whether two stars lead through all directories. -/
  hasDoubleStar : Bool := false

namespace Files

/-- The names in a directory that a pattern matches. -/
def matchingNames (fs : Files) (r : NameRules) (directory : Nat) (gs : List Glyph) : List String :=
  let p := Pattern.ofGlyphs r.isRich gs
  let startsWithDot := p.head?.any fun i => i matches .char '.'
  let names := (if startsWithDot && r.hasDots then [".", ".."] else []) ++ (fs.entries directory).map (·.1)
  names.filter fun name =>
    (startsWithDot || r.showsHidden || !name.startsWith ".") && p.isMatch name.toList

/-- The paths of all directories inside of one, with itself. -/
def directoriesBelow (fs : Files) : (depth : Nat) → (path : String) → Nat → List (String × Nat)
  | 0, path, i => [(path, i)]
  | depth + 1, path, i =>
    (path, i) ::
      ((fs.entries i).filter fun e => fs.isDirectory e.2 && !e.1.startsWith ".").flatMap fun e =>
        directoriesBelow fs depth (path ++ e.1 ++ "/") e.2

/-- Follows the pieces of a pattern from a path on: the paths of what they match. -/
def matchingFrom (fs : Files) (r : NameRules) (here : Nat) : (path : String) → List (List Glyph) → List String
  | path, [] => [path]
  | path, piece :: pieces =>
    let directory? :=
      if path = "" then some here
      else (fs.find? here path).filter fs.isDirectory
    if r.hasDoubleStar && Glyph.text piece == "**" && piece.all (!·.isLiteral) && !pieces.isEmpty then
      match directory? with
      | none => []
      | some d =>
        (fs.directoriesBelow Files.nameLimit path d).flatMap fun e =>
          matchingFrom fs r here e.1 pieces
    else if Glyph.hasSigns r.isRich piece then
      match directory? with
      | none => []
      | some d =>
        (matchingNames fs r d piece).flatMap fun name =>
          match pieces with
          | [] => [path ++ name]
          | _ =>
            if ((fs.find? here (path ++ name)).filter fs.isDirectory).isSome then
              matchingFrom fs r here (path ++ name ++ "/") pieces
            else []
    else
      let name := Glyph.plainText piece
      match pieces with
      | [] =>
        if name = "" then (if directory?.isSome then [path] else [])
        else if (fs.findLink? here (path ++ name)).isSome then [path ++ name] else []
      | _ => matchingFrom fs r here (path ++ name ++ "/") pieces

/-- The paths that a pattern matches, in order. -/
def matching (fs : Files) (r : NameRules) (here : Nat) (gs : List Glyph) : List String :=
  (fs.matchingFrom r here "" (Glyph.pieces gs)).mergeSort fun a b => decide (a ≤ b)

end Files

end Unnest.Host
