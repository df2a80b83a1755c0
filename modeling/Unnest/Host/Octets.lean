/-!
# Octets

Files, pipes and arguments hold octets, not characters.  A text inside of a host is
therefore a string in which every character stands for one octet, and lengths, columns
and orders are what a program sees that knows nothing of characters.  `encode` and
`decode` lead from the characters of a text to its octets and back; octets that are no
text become replacement characters, as many as a reader would notice mistakes.
-/

namespace Unnest.Octets

/-- The octets of a text, each as a character. -/
def encode (text : String) : String :=
  String.ofList (text.toUTF8.toList.map fun octet => Char.ofNat octet.toNat)

/-- A reader of characters from octets: what it has read, and the character that it is
in. -/
structure Decoder where
  /-- How many octets of the character are missing. -/
  missing : Nat := 0
  /-- The least value that the next octet may have. -/
  least : Nat := 0x80
  /-- The largest value that the next octet may have. -/
  largest : Nat := 0xbf
  value : Nat := 0
  text : String := ""

namespace Decoder

/-- What stands for octets that are no character. -/
def replacement : Char := '\ufffd'

/-- Reads the first octet of a character. -/
def start (d : Decoder) (octet : Nat) : Decoder :=
  let opening (missing value least largest : Nat) : Decoder :=
    { d with missing, value, least, largest }
  if octet < 0x80 then { d with text := d.text.push (Char.ofNat octet) }
  else if octet < 0xc2 then { d with text := d.text.push replacement }
  else if octet < 0xe0 then opening 1 (octet - 0xc0) 0x80 0xbf
  else if octet < 0xf0 then
    opening 2 (octet - 0xe0) (if octet = 0xe0 then 0xa0 else 0x80) (if octet = 0xed then 0x9f else 0xbf)
  else if octet < 0xf5 then
    opening 3 (octet - 0xf0) (if octet = 0xf0 then 0x90 else 0x80) (if octet = 0xf4 then 0x8f else 0xbf)
  else { d with text := d.text.push replacement }

/-- Reads an octet. -/
def read (d : Decoder) (octet : Nat) : Decoder :=
  if d.missing = 0 then d.start octet
  else if d.least ≤ octet && octet ≤ d.largest then
    let value := 64 * d.value + (octet - 0x80)
    if d.missing = 1 then { d with missing := 0, text := d.text.push (Char.ofNat value) }
    else { d with missing := d.missing - 1, value, least := 0x80, largest := 0xbf }
  else { d with missing := 0, text := d.text.push replacement }.start octet

end Decoder

/-- The text that octets are. -/
def decode (octets : String) : String :=
  let d := octets.foldl (fun (d : Decoder) c => d.read c.toNat) {}
  if d.missing = 0 then d.text else d.text.push Decoder.replacement

/-! ## Pieces -/

/-- The pieces of a text between the characters of a kind; there is always one. -/
def split (isSeparator : Char → Bool) (text : String) : List String :=
  let (done, last) := text.foldl (fun (done, piece) c =>
    if isSeparator c then (piece :: done, "") else (done, piece.push c)) (([], "") : List String × String)
  (last :: done).reverse

/-- The pieces of a text that are not empty. -/
def words (isSeparator : Char → Bool) (text : String) : List String :=
  (split isSeparator text).filter (· != "")

/-- The lines of a text, without their ends.  What follows the last end is a line if
there is something. -/
def lines (text : String) : List String :=
  let pieces := split (· == '\n') text
  if pieces.getLast? == some "" then pieces.dropLast else pieces

/-- Whether a text ends its last line. -/
def endsLine (text : String) : Bool := text.toList.getLast? == some '\n'

/-- The lines of a text together with their ends; only the last can be without one. -/
def rawLines (text : String) : List String :=
  let pieces := split (· == '\n') text
  (pieces.dropLast.map (· ++ "\n")) ++ (if pieces.getLastD "" == "" then [] else [pieces.getLastD ""])

/-- Lines as a text that ends each of them. -/
def ofLines (lines : List String) : String := String.join (lines.map (· ++ "\n"))

/-- A text from a character on. -/
def drop (n : Nat) (text : String) : String := if n = 0 then text else String.ofList (text.toList.drop n)

/-- The first characters of a text. -/
def take (n : Nat) (text : String) : String := String.ofList (text.toList.take n)

/-- What follows a text at the start of another. -/
def after? (start text : String) : Option String :=
  if start.toList.isPrefixOf text.toList then some (drop start.length text) else none

/-- What stands before a text at the end of another. -/
def before? (ending text : String) : Option String :=
  if ending.toList.isSuffixOf text.toList then some (take (text.length - ending.length) text) else none

/-- Whether a text contains a character. -/
def has (text : String) (c : Char) : Bool := text.any (· == c)

/-- A text up to a character, and what follows the character if it is there. -/
def cut (c : Char) (text : String) : String × Option String :=
  let cs := text.toList
  match cs.dropWhile (· != c) with
  | [] => (text, none)
  | _ :: rest => (String.ofList (cs.takeWhile (· != c)), some (String.ofList rest))

/-- A character a number of times. -/
def repeated (n : Nat) (c : Char) : String := String.ofList (List.replicate n c)

/-- A text with characters in front of it up to a width. -/
def padLeft (c : Char) (width : Nat) (text : String) : String :=
  repeated (width - text.length) c ++ text

/-- A text with characters behind it up to a width. -/
def padRight (c : Char) (width : Nat) (text : String) : String :=
  text ++ repeated (width - text.length) c

/-! ## Classes of octets -/

/-- The octets that separate words: blanks, and the ends of lines and pages. -/
def isSpace (c : Char) : Bool := c = ' ' || (c.toNat ≥ 9 && c.toNat ≤ 13)

/-- The octets that can be seen on paper, with the blank. -/
def isPrintable (c : Char) : Bool := c.toNat ≥ 32 && c.toNat < 127

/-- The octets that end or separate words inside a line. -/
def isBlank (c : Char) : Bool := c = ' ' || c = '\t'

end Unnest.Octets
