import Mathlib.Data.List.Basic
import Unnest.Code.ClassFile

/-!
# Reading text constants

A text that was written between quotes can be read again.  A reader goes forward from
the opening quote to the closing one (`Quoted.scan`), and what it passed on the way is
turned back into the text (`Quoted.unescape`).

What is written for one character is a backslash with a letter for it, or the character
itself (`Quoted.Denotes`).  The reader takes such a piece as a whole, whatever follows it.
So it is at the start of a piece whenever it looks for the closing quote, and a backslash
at the end of the text is taken together with the backslash that was written before it,
never with the quote.

* `Quoted.scan_escape`, `Quoted.unescape_escape`: what was written is read again.
* `ClassFile.constants_sublist_splitOn`: the constants of a class have their lines of its text.
* `constants_read_back`: both for the instruction that pushes a text.
-/

namespace Unnest

namespace Quoted

/-! ## Reading -/

/-- Reads up to the quote that ends a text: what stands before it, and what follows it.
A backslash is taken together with the character after it, whatever this is. -/
def scan : List Char → Option (List Char × List Char)
  | [] => none
  | ['\\'] => none
  | '"' :: rest => some ([], rest)
  | '\\' :: c :: rest => (scan rest).map (Prod.map (['\\', c] ++ ·) id)
  | c :: rest => (scan rest).map (Prod.map ([c] ++ ·) id)

/-- The character that a letter after a backslash stands for. -/
def meaning? : Char → Option Char
  | '"' => some '"'
  | '\\' => some '\\'
  | 'n' => some '\n'
  | 'r' => some '\r'
  | 't' => some '\t'
  | _ => none

/-- The text that is meant by what stands between quotes.  There is none if a backslash
has no letter after it, or one without a meaning. -/
def unescape : List Char → Option (List Char)
  | [] => some []
  | ['\\'] => none
  | '\\' :: c :: rest => (meaning? c).bind fun d => (unescape rest).map (d :: ·)
  | c :: rest => (unescape rest).map (c :: ·)

theorem scan_cons {c : Char} (hquote : c ≠ '"') (hbackslash : c ≠ '\\') (rest : List Char) :
    scan (c :: rest) = (scan rest).map (Prod.map ([c] ++ ·) id) := by
  rw [scan]
  · exact fun h _ => hbackslash h
  · exact hquote
  · exact fun _ _ h _ => hbackslash h

theorem unescape_cons {c : Char} (hbackslash : c ≠ '\\') (rest : List Char) :
    unescape (c :: rest) = (unescape rest).map (c :: ·) := by
  rw [unescape]
  · exact fun h _ => hbackslash h
  · exact fun _ _ h _ => hbackslash h

/-! ## One character -/

/-- The characters that do not stand for themselves. -/
def special : List Char := ['"', '\\', '\n', '\r', '\t']

/-- The characters that end a line or leave a gap in it. -/
def layout : List Char := ['\n', '\r', '\t']

theorem mem_special_of_mem_layout : ∀ b ∈ layout, b ∈ special := by
  simp [layout, special]

theorem meaning?_of_mem_layout : ∀ b ∈ layout, meaning? b = none := by
  simp [layout, meaning?]

/-- What is written for a character between quotes. -/
inductive Denotes : List Char → Char → Prop
  | letter {c d : Char} (h : meaning? d = some c) : Denotes ['\\', d] c
  | itself {c : Char} (h : c ∉ special) : Denotes [c] c

theorem denotes_escapeChar (c : Char) : Denotes (escapeChar c) c := by
  fun_cases escapeChar c with
  | case1 | case2 | case3 | case4 | case5 => exact .letter rfl
  | case6 _ hquote hbackslash hfeed hreturn htab =>
    refine .itself ?_
    simp only [special, List.mem_cons, List.not_mem_nil, or_false, not_or]
    exact ⟨hquote, hbackslash, hfeed, hreturn, htab⟩

namespace Denotes

variable {piece : List Char} {b c : Char}

theorem scan_append (h : Denotes piece c) (rest : List Char) :
    scan (piece ++ rest) = (scan rest).map (Prod.map (piece ++ ·) id) := by
  cases h with
  | letter h => rfl
  | itself h =>
    refine scan_cons ?_ ?_ rest
    · exact fun hc => h (by simp [special, hc])
    · exact fun hc => h (by simp [special, hc])

theorem unescape_append (h : Denotes piece c) (rest : List Char) :
    unescape (piece ++ rest) = (unescape rest).map (c :: ·) := by
  cases h with
  | letter h =>
    rw [List.cons_append, List.cons_append, List.nil_append, unescape, h, Option.bind_some]
  | itself h => exact unescape_cons (fun hc => h (by simp [special, hc])) rest

theorem notMem_of_mem_layout (h : Denotes piece c) (hb : b ∈ layout) : b ∉ piece := by
  cases h with
  | letter h =>
    rw [List.mem_cons, List.mem_singleton, not_or]
    refine ⟨?_, ?_⟩
    · rintro rfl
      exact absurd hb (by decide)
    · rintro rfl
      rw [meaning?_of_mem_layout b hb] at h
      exact absurd h (by simp)
  | itself h =>
    rw [List.mem_singleton]
    rintro rfl
    exact h (mem_special_of_mem_layout b hb)

end Denotes

/-! ## Whole texts -/

/-- The reader stops at the quote that was written at the end, with all that follows it
still to be read. -/
theorem scan_escape (text rest : List Char) :
    scan (escape text ++ '"' :: rest) = some (escape text, rest) := by
  induction text with
  | nil => rfl
  | cons c text ih =>
    rw [escape_cons, List.append_assoc, (denotes_escapeChar c).scan_append, ih]
    rfl

example : scan (escape ['\\'] ++ ['"', '"']) = some (['\\', '\\'], ['"']) := by decide

theorem unescape_escape (text : List Char) : unescape (escape text) = some text := by
  induction text with
  | nil => rfl
  | cons c text ih =>
    rw [escape_cons, (denotes_escapeChar c).unescape_append, ih]
    rfl

theorem escape_injective : Function.Injective escape := by
  intro s t h
  refine Option.some.inj ?_
  rw [← unescape_escape s, ← unescape_escape t, h]

theorem notMem_escape {b : Char} (hb : b ∈ layout) (text : List Char) : b ∉ escape text := by
  intro h
  obtain ⟨c, -, hc⟩ := List.mem_flatMap.mp h
  exact (denotes_escapeChar c).notMem_of_mem_layout hb hc

theorem toList_quote (s : String) : (quote s).toList = '"' :: escape s.toList ++ ['"'] := by
  rw [quote, String.toList_ofList]

theorem quote_injective : Function.Injective quote := by
  intro s t h
  have hinside := congrArg String.toList h
  rw [toList_quote, toList_quote, List.append_left_inj, List.cons_inj_right] at hinside
  exact String.toList_inj.mp (escape_injective hinside)

theorem notMem_quote {b : Char} (hb : b ∈ layout) (s : String) : b ∉ (quote s).toList := by
  have hquote : b ≠ '"' := by
    rintro rfl
    exact absurd hb (by decide)
  rw [toList_quote, List.mem_append, List.mem_cons, List.mem_singleton, not_or, not_or]
  exact ⟨⟨hquote, notMem_escape hb s.toList⟩, hquote⟩

end Quoted

namespace Code

/-! ## Lines of a text -/

theorem toList_textOfLines_cons (l : String) (ls : List String) :
    (Method.textOfLines (l :: ls)).toList = l.toList ++ '\n' :: (Method.textOfLines ls).toList := by
  simp [Method.textOfLines]

/-- Lines without a line feed are lines of the text again, in their order.  The other lines
may be cut into several. -/
theorem sublist_splitOn_textOfLines {kept lines : List String} (h : kept.Sublist lines)
    (hkept : ∀ l ∈ kept, '\n' ∉ l.toList) :
    (kept.map String.toList).Sublist ((Method.textOfLines lines).toList.splitOn '\n') := by
  induction h with
  | slnil => exact List.nil_sublist _
  | cons l h ih =>
    rw [toList_textOfLines_cons, List.splitOn_append_cons_self]
    exact (ih hkept).trans (List.sublist_append_right _ _)
  | cons_cons l h ih =>
    obtain ⟨hl, hkept⟩ := List.forall_mem_cons.mp hkept
    have hwhole : l.toList.splitOn '\n' = [l.toList] := by
      rw [List.splitOn_eq_splitOnP]
      exact List.splitOnP_eq_singleton fun x hx => beq_false_of_ne (ne_of_mem_of_not_mem hx hl)
    rw [toList_textOfLines_cons, List.splitOn_append_cons_self, hwhole]
    exact (ih hkept).cons_cons _

/-! ## Constants -/

/-- The text that an instruction pushes. -/
def Instruction.constant? : Instruction → Option String
  | .text s => some s
  | _ => none

/-- The texts that a method pushes, in the order of its code. -/
def Method.constants (m : Method) : List String := m.code.filterMap Instruction.constant?

/-- The texts that the methods of a class push, in order. -/
def ClassFile.constants (c : ClassFile) : List String := c.methods.flatMap Method.constants

/-- The line of a method for a constant. -/
def constantLine (s : String) : String := (Instruction.text s).indented

theorem notMem_constantLine (s : String) : '\n' ∉ (constantLine s).toList := by
  have hline : constantLine s = "    " ++ ("ldc " ++ Quoted.quote s) := rfl
  rw [hline, String.toList_append, String.toList_append, List.mem_append, List.mem_append, not_or,
    not_or]
  exact ⟨by decide, by decide, Quoted.notMem_quote (by decide) s⟩

theorem Instruction.eq_text_of_constant? {i : Instruction} {s : String}
    (h : i.constant? = some s) : i = .text s := by
  cases i with
  | text t => exact congrArg _ (Option.some.inj h)
  | _ => exact absurd h (by simp [constant?])

theorem sublist_map_indented (code : List Instruction) :
    ((code.filterMap Instruction.constant?).map constantLine).Sublist
      (code.map Instruction.indented) := by
  induction code with
  | nil => exact .slnil
  | cons i code ih =>
    cases h : i.constant? with
    | none =>
      rw [List.filterMap_cons_none h]
      exact ih.cons _
    | some s =>
      obtain rfl := Instruction.eq_text_of_constant? h
      rw [List.filterMap_cons_some h]
      exact ih.cons_cons _

theorem Method.constants_sublist_lines (m : Method) :
    (m.constants.map constantLine).Sublist m.lines := by
  have hcode := sublist_map_indented m.code
  -- the code stands between the head of the method and its end
  exact hcode.trans ((List.sublist_append_right _ _).trans (List.sublist_append_left _ _))

theorem ClassFile.constants_sublist_lines (c : ClassFile) :
    (c.constants.map constantLine).Sublist c.lines := by
  have hmethods : (c.constants.map constantLine).Sublist
      (c.methods.flatMap fun m => "" :: m.lines) := by
    rw [constants]
    induction c.methods with
    | nil => exact .slnil
    | cons m ms ih =>
      rw [List.flatMap_cons, List.map_append, List.flatMap_cons]
      exact (m.constants_sublist_lines.cons _).append ih
  exact hmethods.trans (List.sublist_append_right _ _)

theorem ClassFile.constants_sublist_splitOn (c : ClassFile) :
    (c.constants.map fun s => (constantLine s).toList).Sublist (c.text.toList.splitOn '\n') := by
  have hlines := sublist_splitOn_textOfLines c.constants_sublist_lines
    (List.forall_mem_map.mpr fun s _ => notMem_constantLine s)
  rw [List.map_map] at hlines
  exact hlines

/-- Text constants survive being written.  The operand of the instruction that pushes `s`
stands on one line; a reader that starts after its opening quote stops at its closing one,
whatever follows, and what it has read means `s`.  So different texts are written
differently, and in the text of a class each of the constants has a line to itself, in the
order of the code. -/
theorem constants_read_back :
    (∀ s : String, ∃ operand inside,
        (Instruction.text s).line = "ldc " ++ operand ∧ operand.toList = '"' :: inside ++ ['"'] ∧
        ('\n' ∉ operand.toList ∧ '\r' ∉ operand.toList ∧ '\t' ∉ operand.toList) ∧
        (∀ rest, Quoted.scan (inside ++ '"' :: rest) = some (inside, rest)) ∧
        Quoted.unescape inside = some s.toList) ∧
      Function.Injective (fun s => (Instruction.text s).line) ∧
      ∀ c : ClassFile, (c.constants.map fun s => (Instruction.text s).indented.toList).Sublist
        (c.text.toList.splitOn '\n') := by
  refine ⟨fun s => ?_, fun s t h => ?_, ClassFile.constants_sublist_splitOn⟩
  · refine ⟨Quoted.quote s, Quoted.escape s.toList, rfl, Quoted.toList_quote s, ?_, ?_, ?_⟩
    · exact ⟨Quoted.notMem_quote (by decide) s, Quoted.notMem_quote (by decide) s,
        Quoted.notMem_quote (by decide) s⟩
    · exact Quoted.scan_escape s.toList
    · exact Quoted.unescape_escape s.toList
  · exact Quoted.quote_injective ((String.append_right_inj _).mp h)

end Code

end Unnest
