import Unnest.Host.Shell.Arithmetic
import Unnest.Host.Shell.Braces

/-!
# Expansion of words

A word becomes fields in steps: its parameters, scripts and expressions get their
values, values that did not stand between quotes are split at separators, and what then
has signs of a pattern is matched with the names of files.  In between a word is a list
of `Shard`s, which know of each part whether it may be split and whether its characters
may be signs.  Where one text is asked for, the shards are put together instead.
-/

namespace Unnest.Host.Shell

/-- A part of an expanded word. -/
inductive Shard where
  /-- Characters that stay together. -/
  | together (gs : List Glyph)
  /-- A value that is split at separators. -/
  | value (s : String)
  /-- The end of a field, and what stands in its place where there are no fields. -/
  | boundary (joiner : String)
  deriving Repr, Inhabited

namespace Shard

/-- The text that shards make together. -/
def text (shards : List Shard) : String :=
  String.join (shards.map fun s =>
    match s with
    | .together gs => Glyph.text gs
    | .value v => v
    | .boundary joiner => joiner)

/-- The pattern that shards make together. -/
def glyphs (shards : List Shard) : List Glyph :=
  shards.flatMap fun s =>
    match s with
    | .together gs => gs
    | .value v => Glyph.active v
    | .boundary joiner => Glyph.literal joiner

/-- Fields in the making. -/
structure Splitting where
  /-- The fields that are complete, from the last on. -/
  done : List (List Glyph) := []
  /-- The field that goes on, from its last character on. -/
  current? : Option (List Glyph) := none
  /-- Whether blanks ended the last field, so that a separator can still belong to it. -/
  isAfterBlank : Bool := false

namespace Splitting

/-- Ends the field that goes on. -/
def close (s : Splitting) : Splitting :=
  match s.current? with
  | some gs => { s with done := gs.reverse :: s.done, current? := none }
  | none => s

/-- Adds a character to the field. -/
def add (s : Splitting) (g : Glyph) : Splitting :=
  { s with current? := some (g :: s.current?.getD []), isAfterBlank := false }

/-- Reads a character of a value. -/
def read (separators : List Char) (s : Splitting) (c : Char) : Splitting :=
  if !separators.contains c then s.add ⟨c, false⟩
  else if c = ' ' || c = '\t' || c = '\n' then
    if s.current?.isSome then { s.close with isAfterBlank := true } else s
  else if s.current?.isSome then { s.close with isAfterBlank := false }
  else if s.isAfterBlank then { s with isAfterBlank := false }
  else { s with done := [] :: s.done }

/-- Reads a shard. -/
def readShard (separators : List Char) (s : Splitting) : Shard → Splitting
  | .together gs =>
    gs.foldl add { s with current? := some (s.current?.getD []), isAfterBlank := false }
  | .value v => v.toList.foldl (read separators) s
  | .boundary _ => { s.close with isAfterBlank := false }

end Splitting

/-- The fields that shards make. -/
def fields (separators : List Char) (shards : List Shard) : List (List Glyph) :=
  ((shards.foldl (Splitting.readShard separators) {}).close).done.reverse

end Shard

/-- The value of a parameter. -/
inductive ParameterValue where
  | absent
  | one (s : String)
  /-- Several values, and whether they are joined where they stand between quotes. -/
  | many (values : List String) (joins : Bool)
  deriving Repr, Inhabited

namespace Act

/-- The text of a status that scripts inside of a command leave. -/
def firstSeparator : Act String := do
  match ← textOf? "IFS" with
  | none => return " "
  | some s => return Octets.take 1 s

/-- The value of a parameter by its name and subscript. -/
def parameterValue (name : String) (subscript? : Option String) : Act ParameterValue := do
  let s ← get
  match name with
  | "@" => return .many s.arguments false
  | "*" => return .many s.arguments true
  | _ =>
    let target ← resolve name 8
    let value? : Option Value ←
      if name = "PIPESTATUS" then
        pure (some (Value.indexed ((List.range s.statuses.length).zip (s.statuses.map toString))))
      else if name = "FUNCNAME" && !s.callers.isEmpty then
        pure (some (Value.indexed ((List.range s.callers.length).zip s.callers)))
      else pure ((← binding? target).bind (·.value?))
    match subscript? with
    | none =>
      match ← parameter? name with
      | some text => return .one text
      | none => return .absent
    | some "@" => return value?.elim (.many [] false) fun v => .many v.elements false
    | some "*" => return value?.elim (.many [] true) fun v => .many v.elements true
    | some index =>
      match value? with
      | none => return .absent
      | some (.keyed es) => return (es.lookup index).elim .absent .one
      | some v =>
        let i ← arithmetic index
        let size : Nat :=
          match v with
          | .indexed es => (es.getLast?.map (·.1 + 1)).getD 0
          | _ => 1
        let i := if i < 0 then (size : Int) + i else i
        return (v.element? i.toNat).elim .absent .one

/-- A value without what a pattern matches at one of its ends. -/
def stripped (p : Pattern) (isStart isLongest : Bool) (s : String) : String :=
  let cs := s.toList
  let lengths := if isStart then p.startLengths cs else p.endLengths cs
  match if isLongest then lengths.getLast? else lengths.head? with
  | none => s
  | some n => String.ofList (if isStart then cs.drop n else cs.take (cs.length - n))

/-- A value with a text in place of what a pattern matches, the longest each time. -/
def replacedAll (p : Pattern) (new : List Char) (isAll : Bool) : (steps : Nat) → List Char → List Char
  | 0, cs => cs
  | steps + 1, cs =>
    match (p.startLengths cs).getLast? with
    | some (n + 1) =>
      let rest := cs.drop (n + 1)
      new ++ (if isAll then replacedAll p new isAll steps rest else rest)
    | _ =>
      match cs with
      | [] => []
      | c :: cs => c :: replacedAll p new isAll steps cs

/-- A value with a text in place of what a pattern matches. -/
def replaced (where? : Option Char) (p : Pattern) (new s : String) : String :=
  let cs := s.toList
  match where? with
  | some '#' =>
    match (p.startLengths cs).getLast? with
    | some n => new ++ String.ofList (cs.drop n)
    | none => s
  | some '%' =>
    match (p.endLengths cs).getLast? with
    | some n => String.ofList (cs.take (cs.length - n)) ++ new
    | none => s
  | _ => String.ofList (replacedAll p new.toList (where? == some '/') (cs.length + 1) cs)

/-- A value with its letters changed where a pattern matches them. -/
def recased (p : Pattern) (isUpper isAll : Bool) (s : String) : String :=
  let change (c : Char) : Char :=
    if p.isEmpty || p.isMatch [c] then (if isUpper then c.toUpper else c.toLower) else c
  match s.toList with
  | [] => ""
  | c :: cs => String.ofList (change c :: if isAll then cs.map change else cs)

/-- A text as the rich shell reads it back. -/
def requoted (s : String) : String :=
  if s.all Octets.isPrintable then
    "'" ++ String.join (s.toList.map fun c => if c = '\x27' then "'\\''" else c.toString) ++ "'"
  else Utility.shellQuoted .richShell s

/-- A value that an operation of one letter makes. -/
def transformed (letter : Char) (s : String) : String :=
  match letter with
  | 'Q' => requoted s
  | 'U' => s.map Char.toUpper
  | 'L' => s.map Char.toLower
  | 'u' => recased [] true false s
  | 'E' => (quotedEscapes.read s).1
  | _ => s

/-- Part of a list from an offset on. -/
def sliced {α : Type} (offset : Int) (length? : Option Int) (values : List α) : List α :=
  let size : Int := values.length
  let start := if offset < 0 then size + offset else offset
  if start < 0 then []
  else
    let stop :=
      match length? with
      | none => size
      | some n => if n < 0 then size + n else start + n
    (values.take stop.toNat).drop start.toNat

/-- Complains about a parameter without a value. -/
def refuseUnset {α : Type} (name : String) : Act α := do
  if ← isRich then
    let shown := if isName name then name else "$" ++ name
    complain s!"{shown}: unbound variable"
    setStatus 127
    throw .quit
  else fail 2 s!"{name}: parameter not set"

/-- The shards of a value that stands between quotes or not. -/
def valueShards (isQuoted : Bool) (v : ParameterValue) : Act (List Shard) := do
  let single (s : String) : Shard := if isQuoted then .together (Glyph.literal s) else .value s
  match v with
  | .absent => return [single ""]
  | .one s => return [single s]
  | .many values joins =>
    let first ← firstSeparator
    if isQuoted && joins then return [single (first.intercalate values)]
    else
      let joiner := if joins || !(← isRich) then first else " "
      return ((values.map single).intersperse (.boundary joiner))

/-- What is done to each of several values. -/
def mapValue (f : String → String) : ParameterValue → ParameterValue
  | .absent => .one (f "")
  | .one s => .one (f s)
  | .many values joins => .many (values.map f) joins

/-- The home directory that a tilde and a name stand for, if it is known. -/
def home? (name : String) : Act (Option String) := do
  match name with
  | "" => textOf? "HOME"
  | "root" => return some "/root"
  | "+" => if ← isRich then textOf? "PWD" else return none
  | "-" => if ← isRich then textOf? "OLDPWD" else return none
  | _ => return none

/-- The pieces that a text with a tilde at its start stands for. -/
def tilde (s : String) (isLast : Bool) (ends : List Char) : Act (Option (List Piece)) := do
  match s.toList with
  | '~' :: cs =>
    let name := cs.takeWhile fun c => !ends.contains c
    let rest := cs.drop name.length
    if rest.isEmpty && !isLast then return none
    match ← home? (String.ofList name) with
    | some home =>
      return some (.quoted home :: if rest.isEmpty then [] else [.text (String.ofList rest)])
    | none => return none
  | _ => return none

/-- A word with the tilde at its start expanded. -/
def untilded : Word → Act Word
  | .text s :: ps => do
    match ← tilde s ps.isEmpty ['/'] with
    | some qs => return qs ++ ps
    | none => return .text s :: ps
  | w => return w

/-- The parts of a text behind each colon. -/
def afterColons (cs : List Char) : List (List Char) :=
  match cs with
  | [] => [[]]
  | ':' :: cs => [] :: afterColons cs
  | c :: cs =>
    match afterColons cs with
    | [] => [[c]]
    | p :: ps => (c :: p) :: ps

/-- The value of an assignment with the tildes at its start and behind colons expanded. -/
def untildedValue : Word → (isFirst : Bool) → Act Word
  | [], _ => return []
  | .text s :: ps, isFirst => do
    let parts := afterColons s.toList
    let count := parts.length
    let expanded ← (parts.zip (List.range count)).mapM fun (part, i) => do
      let text := String.ofList part
      let isLast := ps.isEmpty || i + 1 < count
      let pieces : List Piece ←
        if i = 0 && !isFirst then pure [Piece.text text]
        else do
          match ← tilde text isLast ['/', ':'] with
          | some qs => pure qs
          | none => pure [Piece.text text]
      pure (if i = 0 then pieces else Piece.text ":" :: pieces)
    return expanded.flatten ++ (← untildedValue ps false)
  | p :: ps, _ => do return p :: (← untildedValue ps false)

/-- The expanders that a part of a word needs for the words in it. -/
structure Expander where
  /-- The shards of a word in which a text may be split or not. -/
  shards : Word → (splitsText : Bool) → Act (List Shard)

namespace Expander

def text (x : Expander) (w : Word) : Act String := return Shard.text (← x.shards w false)

def pattern (x : Expander) (w : Word) : Act Pattern := do
  return Pattern.ofGlyphs (← isRich) (Shard.glyphs (← x.shards w false))

end Expander

/-- The names of the variables that start with a text. -/
def namesFrom (start : String) : Act (List String) := do
  return (((← get).bindings.filter fun e => e.2.value?.isSome).map (·.1)).filter
    (fun n => start.toList.isPrefixOf n.toList) |>.mergeSort fun a b => decide (a ≤ b)

/-- Whether a value counts as missing. -/
def isMissing (empties : Bool) (v : ParameterValue) : Act Bool := do
  match v with
  | .absent => return true
  | .one s => return empties && s = ""
  | .many values _ => return values.isEmpty || (empties && (← firstSeparator).intercalate values == "")

/-- The shards of a parameter and what is done with it. -/
def expandParameter (x : Expander) (name : String) (subscript? : Option String) (o : Operation)
    (isQuoted : Bool) : Act (List Shard) := do
  let v ← parameterValue name subscript?
  let isUnset : Act Unit := do
    if (← isOn "nounset") && (match v with
      | .absent => true
      | _ => false) then refuseUnset name
  let several (f : String → String) : Act (List Shard) := do
    isUnset
    valueShards isQuoted (mapValue f v)
  match o with
  | .value => do
    isUnset
    match v with
    | .absent => if isQuoted then return [.together []] else return []
    | v => valueShards isQuoted v
  | .length => do
    isUnset
    let n ←
      match v with
      | .absent => pure 0
      | .one s => pure s.length
      | .many values _ =>
        if ← isRich then pure values.length
        else pure ((← firstSeparator).intercalate values).length
    valueShards isQuoted (.one (toString n))
  | .fallback empties w => do
    if ← isMissing empties v then x.shards (← untilded w) (!isQuoted) else valueShards isQuoted v
  | .alternative empties w => do
    if ← isMissing empties v then (if isQuoted then return [.together []] else return [])
    else x.shards (← untilded w) (!isQuoted)
  | .assign empties w => do
    if ← isMissing empties v then
      if !isName name then
        if ← isRich then fail 1 s!"${name}: cannot assign in this way"
        else fail 2 s!"{name}: bad variable name"
      let text ← x.text (← untilded w)
      match subscript? with
      | some index => assignElement arithmetic name index text
      | none => assignText name text
      valueShards isQuoted (.one text)
    else valueShards isQuoted v
  | .require empties w => do
    if ← isMissing empties v then
      let text ← x.text w
      let isRich ← isRich
      let text :=
        if text != "" then text
        else if empties && isRich then "parameter null or not set"
        else if empties then "parameter not set or null"
        else "parameter not set"
      complain s!"{name}: {text}"
      setStatus (if isRich then 127 else 2)
      throw .quit
    else valueShards isQuoted v
  | .removeStart isLongest w => do
    let p ← x.pattern w
    several (stripped p true isLongest)
  | .removeEnd isLongest w => do
    let p ← x.pattern w
    several (stripped p false isLongest)
  | .replace where? old new => do
    let p ← x.pattern old
    let new ← x.text new
    several (replaced where? p new)
  | .slice offset length? => do
    isUnset
    let offset ← arithmetic (← x.text offset)
    let length? ← length?.mapM fun w => do arithmetic (← x.text w)
    match v with
    | .many values joins =>
      let values ← if name = "@" || name = "*" then pure ((← get).name :: values) else pure values
      valueShards isQuoted (.many (sliced offset length? values) joins)
    | .one s => valueShards isQuoted (.one (String.ofList (sliced offset length? s.toList)))
    | .absent => valueShards isQuoted (.one "")
  | .changeCase isUpper isAll w => do
    let p ← x.pattern w
    several (recased p isUpper isAll)
  | .transform letter => several (transformed letter)
  | .names joins => valueShards isQuoted (.many (← namesFrom name) joins)
  | .bad =>
    if ← isRich then fail 1 "bad substitution"
    else fail 2 "Bad substitution"

/-- The shards of a part of a word. -/
def expandPiece (e : Engine) (x : Expander) (splitsText : Bool) : Piece → Act (List Shard)
  | .text s => return [if splitsText then .value s else .together (Glyph.active s)]
  | .quoted s => return [.together (Glyph.literal s)]
  | .parameter name subscript? isIndirect o isQuoted => do
    let subscript? ← subscript?.mapM x.text
    if !isIndirect then expandParameter x name subscript? o isQuoted
    else
      match o, subscript? with
      | .names joins, _ => valueShards isQuoted (.many (← namesFrom name) joins)
      | .value, some index =>
        if index = "@" || index = "*" then
          let keys := ((← binding? name).bind (·.value?)).elim [] Value.keys
          valueShards isQuoted (.many keys (index = "*"))
        else expandParameter x name subscript? o isQuoted
      | _, _ =>
        match ← parameterValue name subscript? with
        | .one target =>
          let (target, index?) := Octets.cut '[' target
          let index? := index?.map fun i => String.ofList i.toList.dropLast
          if target = "" then fail 1 s!"{name}: invalid indirect expansion"
          else expandParameter x target index? o isQuoted
        | _ => fail 1 s!"{name}: invalid indirect expansion"
  | .output script isQuoted => do
    let text ← e.capture script
    return [if isQuoted then .together (Glyph.literal text) else .value text]
  | .arithmetic w isQuoted => do
    let n ← arithmetic (← x.text w)
    let text := toString n
    return [if isQuoted then .together (Glyph.literal text) else .value text]
  | .pipe script isInput => do
    let n ← e.attach script isInput
    return [.together (Glyph.literal s!"/dev/fd/{n}")]
  | .elements _ => return []

/-- The expander at a depth. -/
def expander (e : Engine) : (depth : Nat) → Expander
  | 0 => { shards := fun _ _ => return [] }
  | depth + 1 =>
    { shards := fun w splitsText => do
        let parts ← w.mapM (expandPiece e (expander e depth) splitsText)
        return parts.flatten }

/-- The shards of a word. -/
def expandWord (e : Engine) (w : Word) : Act (List Shard) := (expander e 100).shards w false

/-- The text of a word, which is not split. -/
def expandText (e : Engine) (w : Word) : Act String := do
  return Shard.text (← expandWord e (← untilded w))

/-- The text of the value of an assignment. -/
def expandValue (e : Engine) (w : Word) : Act String := do
  return Shard.text (← expandWord e (← untildedValue w true))

/-- The pattern that a word is. -/
def expandGlyphs (e : Engine) (w : Word) : Act (List Glyph) := do
  return Shard.glyphs (← expandWord e (← untilded w))

/-- The texts that a field stands for: the names of the files that it matches, or
itself. -/
def matchNames (gs : List Glyph) : Act (List String) := do
  let s ← get
  let isRich := s.dialect == .rich
  if s.options.contains "noglob" || !Glyph.hasSigns isRich gs then return [Glyph.text gs]
  let rules : NameRules :=
    { isRich, hasDots := !isRich, showsHidden := s.options.contains "dotglob"
      hasDoubleStar := s.options.contains "globstar" }
  match s.machine.files.matching rules s.process.directory gs with
  | [] =>
    if s.options.contains "nullglob" then return []
    if s.options.contains "failglob" then fail 1 s!"no match: {Glyph.text gs}"
    return [Glyph.text gs]
  | paths => return paths

/-- The fields that a word stands for. -/
def expandFields (e : Engine) (w : Word) : Act (List String) := do
  let isRich ← isRich
  let words := if isRich && (← isOn "braceexpand") then w.unbraced else [w]
  let fields ← words.mapM fun w => do
    let w ←
      match isRich, assignment? isRich w with
      | true, some a => do
        let value ← untildedValue a.value true
        pure (if a.subscript.isNone && !a.isAppended then .text (a.name ++ "=") :: value else w)
      | _, _ => untilded w
    let shards ← expandWord e w
    let fields := Shard.fields (← separators) shards
    return (← fields.mapM matchNames).flatten
  return fields.flatten

/-- The fields that words stand for. -/
def expandAll (e : Engine) (ws : List Word) : Act (List String) := do
  return (← ws.mapM (expandFields e)).flatten

end Act

end Unnest.Host.Shell
