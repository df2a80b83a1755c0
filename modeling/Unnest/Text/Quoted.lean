/-!
# Quoted text

A text inside double quotes, on one line.  The characters that would end the text
or the line, and the backslash itself, are written as a backslash and one more
character; every other character stands for itself.
-/

namespace Unnest.Quoted

/-- How one character is written between quotes. -/
def escapeChar : Char → List Char
  | '"' => ['\\', '"']
  | '\\' => ['\\', '\\']
  | '\n' => ['\\', 'n']
  | '\r' => ['\\', 'r']
  | '\t' => ['\\', 't']
  | c => [c]

/-- What stands between the quotes. -/
def escape (text : List Char) : List Char := text.flatMap escapeChar

/-- A text with its quotes. -/
def quote (text : String) : String :=
  String.ofList ('"' :: escape text.toList ++ ['"'])

@[simp] theorem escape_nil : escape [] = [] := rfl

@[simp] theorem escape_cons (c : Char) (text : List Char) :
    escape (c :: text) = escapeChar c ++ escape text := by
  simp [escape]

@[simp] theorem escape_append (s t : List Char) : escape (s ++ t) = escape s ++ escape t := by
  simp [escape]

end Unnest.Quoted
