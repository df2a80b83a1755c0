import Unnest.Host.Numeral

/-!
# Digests

A digest is a short number that a text of octets is reduced to.  The ones here read a
text in blocks of words, mix each block into a state of words, and end with the words
of the state; a few older sums only add octets up.  Words are natural numbers below a
power of two.
-/

namespace Unnest.Digest

/-! ## Words -/

/-- The sum of words. -/
def add (width a b : Nat) : Nat := (a + b) % Nat.pow 2 width

/-- A word turned to the left. -/
def turnLeft (width n a : Nat) : Nat := ((a <<< n) ||| (a >>> (width - n))) % Nat.pow 2 width

/-- A word turned to the right. -/
def turnRight (width n a : Nat) : Nat := turnLeft width (width - n) a

/-- A word with all bits changed. -/
def flip (width a : Nat) : Nat := Nat.pow 2 width - 1 - a

/-- The number that octets write, the first of them as the largest. -/
def ofOctets (octets : List Nat) : Nat := octets.foldl (fun n octet => 256 * n + octet) 0

/-- The octets of a word, the largest first. -/
def toOctets : (count : Nat) → Nat → List Nat
  | 0, _ => []
  | count + 1, n => toOctets count (n / 256) ++ [n % 256]

/-- A list in pieces of a size; the last can be shorter. -/
def pieces {α : Type} (size : Nat) : (count : Nat) → List α → List (List α)
  | 0, _ => []
  | count + 1, xs => xs.take size :: pieces size count (xs.drop size)

/-- The blocks of a text behind which its length in bits is written: `size` octets each,
of which the last holds the length in an eighth of them. -/
def blocks (size : Nat) (isLargeFirst : Bool) (octets : List Nat) : List (List Nat) :=
  let length := octets.length
  let room := size / 8
  let count := (length + 1 + room + size - 1) / size
  let gap := count * size - length - 1 - room
  let bits := toOctets room (8 * length)
  pieces size count
    (octets ++ 0x80 :: List.replicate gap 0 ++ if isLargeFirst then bits else bits.reverse)

/-- The octets of a text. -/
def octets (text : String) : List Nat := text.toList.map Char.toNat

/-- Words as a text of digits. -/
def hexadecimal (octets : List Nat) : String :=
  String.join (octets.map fun octet => Octets.padLeft '0' 2 (Numeral.digits 16 octet))

/-! ## Constants -/

/-- The first prime numbers. -/
def primes : List Nat :=
  (List.range 410).filter fun n => decide (2 ≤ n) && (List.range n).all fun d => d < 2 || n % d != 0

/-- The largest number of at most `bits` bits whose power is no more than another. -/
def root (power n : Nat) : (bits : Nat) → (found : Nat) → Nat
  | 0, found => found
  | bits + 1, found =>
    let next := found + Nat.pow 2 bits
    root power n bits (if Nat.pow next power ≤ n then next else found)

/-- The first 64 binary places of a root of a number. -/
def rootPlaces (power n : Nat) : Nat := root power (n <<< (64 * power)) 72 0 % Nat.pow 2 64

/-- The places of the cube roots of the first primes. -/
def cubes : List Nat := (primes.take 80).map (rootPlaces 3)

/-- The places of the square roots of the first primes. -/
def squares : List Nat := (primes.take 16).map (rootPlaces 2)

/-! ## The second family -/

/-- How the words of a family are mixed. -/
structure Mixing where
  width : Nat
  rounds : Nat
  constants : List Nat
  upperTurns : List Nat
  lowerTurns : List Nat
  /-- Two turns and a shift. -/
  earlyTurns : List Nat
  lateTurns : List Nat

namespace Mixing

/-- The mixing of words of 32 bits. -/
def short : Mixing :=
  { width := 32, rounds := 64, constants := (cubes.take 64).map (· >>> 32)
    upperTurns := [2, 13, 22], lowerTurns := [6, 11, 25], earlyTurns := [7, 18, 3], lateTurns := [17, 19, 10] }

/-- The mixing of words of 64 bits. -/
def long : Mixing :=
  { width := 64, rounds := 80, constants := cubes
    upperTurns := [28, 34, 39], lowerTurns := [14, 18, 41], earlyTurns := [1, 8, 7], lateTurns := [19, 61, 6] }

/-- A word turned in several ways, together. -/
def turns (m : Mixing) (by_ : List Nat) (a : Nat) : Nat :=
  by_.foldl (fun n k => n ^^^ turnRight m.width k a) 0

/-- A word turned in two ways and shifted, together. -/
def turnsAndShift (m : Mixing) (by_ : List Nat) (a : Nat) : Nat :=
  m.turns (by_.take 2) a ^^^ (a >>> by_.getD 2 0)

/-- Adds words to those of a block, up to one for each round. -/
def schedule (m : Mixing) (words : Array Nat) : Array Nat :=
  (List.range (m.rounds - 16)).foldl (fun (ws : Array Nat) i =>
    let at_ (k : Nat) : Nat := ws[i + k]?.getD 0
    ws.push ((m.turnsAndShift m.lateTurns (at_ 14) + at_ 9 + m.turnsAndShift m.earlyTurns (at_ 1) + at_ 0) %
      Nat.pow 2 m.width)) words

/-- One round. -/
def round (m : Mixing) (state : List Nat) (constant word : Nat) : List Nat :=
  match state with
  | [a, b, c, d, e, f, g, h] =>
    let choice := (e &&& f) ^^^ (flip m.width e &&& g)
    let majority := (a &&& b) ^^^ (a &&& c) ^^^ (b &&& c)
    let first := h + m.turns m.lowerTurns e + choice + constant + word
    let second := m.turns m.upperTurns a + majority
    [(first + second) % Nat.pow 2 m.width, a, b, c, add m.width d first, e, f, g]
  | state => state

/-- Mixes a block into a state. -/
def block (m : Mixing) (state : List Nat) (octets : List Nat) : List Nat :=
  let words := (pieces (m.width / 8) 16 octets).map ofOctets
  let words := (m.schedule words.toArray).toList
  let mixed := (m.constants.zip words).foldl (fun s (k, w) => m.round s k w) state
  (state.zip mixed).map fun (a, b) => add m.width a b

/-- The octets of the first words of the state behind a text. -/
def digest (m : Mixing) (start : List Nat) (count : Nat) (text : String) : List Nat :=
  let state := (blocks (2 * m.width) true (octets text)).foldl m.block start
  (state.flatMap (toOctets (m.width / 8))).take count

end Mixing

/-- The digest of 256 bits. -/
def secure256 (text : String) : List Nat :=
  Mixing.short.digest ((squares.take 8).map (· >>> 32)) 32 text

/-- The digest of 224 bits. -/
def secure224 (text : String) : List Nat :=
  Mixing.short.digest ((squares.drop 8).map (· % Nat.pow 2 32)) 28 text

/-- The digest of 512 bits. -/
def secure512 (text : String) : List Nat := Mixing.long.digest (squares.take 8) 64 text

/-- The digest of 384 bits. -/
def secure384 (text : String) : List Nat := Mixing.long.digest (squares.drop 8) 48 text

/-! ## The first family -/

/-- One round of the digest of 160 bits. -/
def round160 (state : List Nat) (i word : Nat) : List Nat :=
  match state with
  | [a, b, c, d, e] =>
    let (f, k) :=
      if i < 20 then ((b &&& c) ||| (flip 32 b &&& d), 0x5a827999)
      else if i < 40 then (b ^^^ c ^^^ d, 0x6ed9eba1)
      else if i < 60 then ((b &&& c) ||| (b &&& d) ||| (c &&& d), 0x8f1bbcdc)
      else (b ^^^ c ^^^ d, 0xca62c1d6)
    [(turnLeft 32 5 a + f + e + k + word) % Nat.pow 2 32, a, turnLeft 32 30 b, c, d]
  | state => state

/-- The digest of 160 bits. -/
def secure160 (text : String) : List Nat :=
  let mix (state : List Nat) (octets : List Nat) : List Nat :=
    let words := ((pieces 4 16 octets).map ofOctets).toArray
    let words := (List.range 64).foldl (fun (ws : Array Nat) i =>
      let at_ (k : Nat) : Nat := ws[i + k]?.getD 0
      ws.push (turnLeft 32 1 (at_ 13 ^^^ at_ 8 ^^^ at_ 2 ^^^ at_ 0))) words
    let mixed := ((List.range 80).zip words.toList).foldl (fun s (i, w) => round160 s i w) state
    (state.zip mixed).map fun (a, b) => add 32 a b
  let start := [0x67452301, 0xefcdab89, 0x98badcfe, 0x10325476, 0xc3d2e1f0]
  ((blocks 64 true (octets text)).foldl mix start).flatMap (toOctets 4)

/-- The constants of the digest of 128 bits: places of sines. -/
def sines : List Nat :=
  [0xd76aa478, 0xe8c7b756, 0x242070db, 0xc1bdceee, 0xf57c0faf, 0x4787c62a, 0xa8304613, 0xfd469501,
    0x698098d8, 0x8b44f7af, 0xffff5bb1, 0x895cd7be, 0x6b901122, 0xfd987193, 0xa679438e, 0x49b40821,
    0xf61e2562, 0xc040b340, 0x265e5a51, 0xe9b6c7aa, 0xd62f105d, 0x02441453, 0xd8a1e681, 0xe7d3fbc8,
    0x21e1cde6, 0xc33707d6, 0xf4d50d87, 0x455a14ed, 0xa9e3e905, 0xfcefa3f8, 0x676f02d9, 0x8d2a4c8a,
    0xfffa3942, 0x8771f681, 0x6d9d6122, 0xfde5380c, 0xa4beea44, 0x4bdecfa9, 0xf6bb4b60, 0xbebfbc70,
    0x289b7ec6, 0xeaa127fa, 0xd4ef3085, 0x04881d05, 0xd9d4d039, 0xe6db99e5, 0x1fa27cf8, 0xc4ac5665,
    0xf4292244, 0x432aff97, 0xab9423a7, 0xfc93a039, 0x655b59c3, 0x8f0ccc92, 0xffeff47d, 0x85845dd1,
    0x6fa87e4f, 0xfe2ce6e0, 0xa3014314, 0x4e0811a1, 0xf7537e82, 0xbd3af235, 0x2ad7d2bb, 0xeb86d391]

/-- One round of the digest of 128 bits. -/
def round128 (words : Array Nat) (state : List Nat) (i constant : Nat) : List Nat :=
  match state with
  | [a, b, c, d] =>
    let (f, k, ts) :=
      if i < 16 then ((b &&& c) ||| (flip 32 b &&& d), i, [7, 12, 17, 22])
      else if i < 32 then ((d &&& b) ||| (flip 32 d &&& c), 5 * i + 1, [5, 9, 14, 20])
      else if i < 48 then (b ^^^ c ^^^ d, 3 * i + 5, [4, 11, 16, 23])
      else (c ^^^ (b ||| flip 32 d), 7 * i, [6, 10, 15, 21])
    let sum := (a + f + constant + words[k % 16]?.getD 0) % Nat.pow 2 32
    [d, add 32 b (turnLeft 32 (ts.getD (i % 4) 0) sum), b, c]
  | state => state

/-- The digest of 128 bits, whose words have the smallest octet first. -/
def message128 (text : String) : List Nat :=
  let mix (state : List Nat) (octets : List Nat) : List Nat :=
    let words := ((pieces 4 16 octets).map fun p => ofOctets p.reverse).toArray
    let mixed := ((List.range 64).zip sines).foldl (fun s (i, k) => round128 words s i k) state
    (state.zip mixed).map fun (a, b) => add 32 a b
  let start := [0x67452301, 0xefcdab89, 0x98badcfe, 0x10325476]
  ((blocks 64 false (octets text)).foldl mix start).flatMap fun w => (toOctets 4 w).reverse

/-! ## The third family -/

/-- In which order the words of a block are mixed in, in each round. -/
def orders : List (List Nat) :=
  [[0, 1, 2, 3, 4, 5, 6, 7, 8, 9, 10, 11, 12, 13, 14, 15], [14, 10, 4, 8, 9, 15, 13, 6, 1, 12, 0, 2, 11, 7, 5, 3],
    [11, 8, 12, 0, 5, 2, 15, 13, 10, 14, 3, 6, 7, 1, 9, 4], [7, 9, 3, 1, 13, 12, 11, 14, 2, 6, 5, 10, 4, 0, 15, 8],
    [9, 0, 5, 7, 2, 4, 10, 15, 14, 1, 11, 12, 6, 8, 3, 13], [2, 12, 6, 10, 0, 11, 8, 3, 4, 13, 7, 5, 15, 14, 1, 9],
    [12, 5, 1, 15, 14, 13, 4, 10, 0, 7, 6, 3, 9, 2, 8, 11], [13, 11, 7, 14, 12, 1, 3, 9, 5, 0, 15, 4, 8, 6, 2, 10],
    [6, 15, 14, 9, 11, 3, 0, 8, 12, 2, 13, 7, 1, 4, 10, 5], [10, 2, 8, 4, 7, 6, 1, 5, 15, 11, 9, 14, 3, 12, 13, 0]]

/-- The four words that each step of a round mixes. -/
def quarters : List (Nat × Nat × Nat × Nat) :=
  [(0, 4, 8, 12), (1, 5, 9, 13), (2, 6, 10, 14), (3, 7, 11, 15), (0, 5, 10, 15), (1, 6, 11, 12), (2, 7, 8, 13),
    (3, 4, 9, 14)]

/-- Mixes two words of a block into four words of a state. -/
def quarter (v : Array Nat) (q : Nat × Nat × Nat × Nat) (x y : Nat) : Array Nat :=
  let (i, j, k, l) := q
  let at_ (n : Nat) : Nat := v[n]?.getD 0
  let a := (at_ i + at_ j + x) % Nat.pow 2 64
  let d := turnRight 64 32 (at_ l ^^^ a)
  let c := add 64 (at_ k) d
  let b := turnRight 64 24 (at_ j ^^^ c)
  let a := (a + b + y) % Nat.pow 2 64
  let d := turnRight 64 16 (d ^^^ a)
  let c := add 64 c d
  let b := turnRight 64 63 (b ^^^ c)
  (((v.setIfInBounds i a).setIfInBounds j b).setIfInBounds k c).setIfInBounds l d

/-- Mixes a block into a state; `total` octets have been read with it. -/
def blakeBlock (isLast : Bool) (total : Nat) (state : List Nat) (octets : List Nat) : List Nat :=
  let words := ((pieces 8 16 octets).map fun p => ofOctets p.reverse).toArray
  let flags := [0, 0, 0, 0, total, 0, (if isLast then Nat.pow 2 64 - 1 else 0), 0]
  let start := state ++ ((squares.take 8).zip flags).map fun (a, b) => a ^^^ b
  let orders := orders ++ orders.take 2
  let mixed := orders.foldl (fun v order =>
    (quarters.zip (pieces 2 8 order)).foldl (fun v (q, pair) =>
      quarter v q (words[pair.getD 0 0]?.getD 0) (words[pair.getD 1 0]?.getD 0)) v) start.toArray
  let mixed := mixed.toList
  (state.zip ((mixed.take 8).zip (mixed.drop 8))).map fun (s, a, b) => s ^^^ a ^^^ b

/-- The digest of so many octets, up to 64. -/
def blake (size : Nat) (text : String) : List Nat :=
  let octets := octets text
  let count := max 1 ((octets.length + 127) / 128)
  let start := ((squares.take 8).zip [0x01010000 + size]).map (fun (a, b) => a ^^^ b) ++ (squares.take 8).drop 1
  let padded := octets ++ List.replicate (count * 128 - octets.length) 0
  let (state, _) := (pieces 128 count padded).foldl (fun (state, i) block =>
    (blakeBlock (i + 1 == count) (min octets.length (128 * (i + 1))) state block, i + 1)) (start, 0)
  (state.flatMap fun w => (toOctets 8 w).reverse).take size

/-! ## Sums -/

/-- What an octet adds to a cyclic sum. -/
def cyclicStep (sum octet : Nat) : Nat :=
  (List.range 8).foldl (fun s _ => if s.testBit 31 then (2 * s % Nat.pow 2 32) ^^^ 0x04c11db7 else 2 * s)
    (sum ^^^ (octet <<< 24))

/-- The octets of a number, the smallest first, as few as it has. -/
def fewestOctets : (steps : Nat) → Nat → List Nat
  | 0, _ => []
  | steps + 1, n => if n = 0 then [] else n % 256 :: fewestOctets steps (n / 256)

/-- The cyclic sum of a text and its length. -/
def cyclic (text : String) : Nat :=
  let octets := octets text
  flip 32 ((octets ++ fewestOctets 64 octets.length).foldl cyclicStep 0)

/-- The sum of a text that is turned by a bit before each octet. -/
def turning (text : String) : Nat :=
  (octets text).foldl (fun s octet => ((s >>> 1) + ((s % 2) <<< 15) + octet) % Nat.pow 2 16) 0

/-- The sum of the octets of a text, folded into 16 bits. -/
def folded (text : String) : Nat :=
  let sum := (octets text).foldl (· + ·) 0 % Nat.pow 2 32
  let once := sum % Nat.pow 2 16 + sum / Nat.pow 2 16
  once % Nat.pow 2 16 + once / Nat.pow 2 16

end Unnest.Digest
