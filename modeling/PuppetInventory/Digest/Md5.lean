/-!
The MD5 digest of a sequence of bytes.
-/

namespace PuppetInventory.Digest

structure Md5 where
  a : UInt32
  b : UInt32
  c : UInt32
  d : UInt32
deriving Repr, DecidableEq, Inhabited

namespace Md5

def start : Md5 where
  a := 0x67452301
  b := 0xefcdab89
  c := 0x98badcfe
  d := 0x10325476

/-- The whole parts of `2 ^ 32 * |sin k|` for `k` from 1 to 64. -/
def sines : List UInt32 :=
  [
    0xd76aa478, 0xe8c7b756, 0x242070db, 0xc1bdceee, 0xf57c0faf, 0x4787c62a, 0xa8304613, 0xfd469501,
    0x698098d8, 0x8b44f7af, 0xffff5bb1, 0x895cd7be, 0x6b901122, 0xfd987193, 0xa679438e, 0x49b40821,
    0xf61e2562, 0xc040b340, 0x265e5a51, 0xe9b6c7aa, 0xd62f105d, 0x02441453, 0xd8a1e681, 0xe7d3fbc8,
    0x21e1cde6, 0xc33707d6, 0xf4d50d87, 0x455a14ed, 0xa9e3e905, 0xfcefa3f8, 0x676f02d9, 0x8d2a4c8a,
    0xfffa3942, 0x8771f681, 0x6d9d6122, 0xfde5380c, 0xa4beea44, 0x4bdecfa9, 0xf6bb4b60, 0xbebfbc70,
    0x289b7ec6, 0xeaa127fa, 0xd4ef3085, 0x04881d05, 0xd9d4d039, 0xe6db99e5, 0x1fa27cf8, 0xc4ac5665,
    0xf4292244, 0x432aff97, 0xab9423a7, 0xfc93a039, 0x655b59c3, 0x8f0ccc92, 0xffeff47d, 0x85845dd1,
    0x6fa87e4f, 0xfe2ce6e0, 0xa3014314, 0x4e0811a1, 0xf7537e82, 0xbd3af235, 0x2ad7d2bb, 0xeb86d391
  ]

/-- How far each of the four rounds turns, over four steps each. -/
def turns : List (List UInt32) :=
  [[7, 12, 17, 22], [5, 9, 14, 20], [4, 11, 16, 23], [6, 10, 15, 21]]

def rotateLeft (x amount : UInt32) : UInt32 :=
  (x <<< amount) ||| (x >>> (32 - amount))

/-- The mixing function of a round, and the word of the block that a step takes. -/
def mix (round step : Nat) (state : Md5) : UInt32 × Nat :=
  match round with
  | 0 => ((state.b &&& state.c) ||| (~~~state.b &&& state.d), step)
  | 1 => ((state.d &&& state.b) ||| (~~~state.d &&& state.c), (5 * step + 1) % 16)
  | 2 => (state.b ^^^ state.c ^^^ state.d, (3 * step + 5) % 16)
  | _ => (state.c ^^^ (state.b ||| ~~~state.d), (7 * step) % 16)

def advance (block : List UInt32) (state : Md5) (step : Nat × UInt32) : Md5 :=
  let round := step.1 / 16
  let (mixed, word) := mix round step.1 state
  let turn := ((turns[round]?.getD [])[step.1 % 4]?).getD 0
  let sum := state.a + mixed + step.2 + block[word]?.getD 0
  { a := state.d
    b := state.b + rotateLeft sum turn
    c := state.b
    d := state.c }

def absorb (state : Md5) (block : List UInt32) : Md5 :=
  let last := (List.zip (List.range 64) sines).foldl (advance block) state
  { a := state.a + last.a
    b := state.b + last.b
    c := state.c + last.c
    d := state.d + last.d }

/-- The bytes of a number, the lowest first. -/
def littleEndian (count n : Nat) : List UInt8 :=
  (List.range count).map fun i => UInt8.ofNat (n >>> (8 * i))

/-- The message with its mark, its filling and its length in bits. -/
def pad (message : List UInt8) : List UInt8 :=
  let filling := (119 - message.length % 64) % 64
  message ++ [0x80] ++ List.replicate filling 0 ++ littleEndian 8 (8 * message.length)

/-- The words of a message, each from four bytes. -/
def words : List UInt8 → List UInt32
  | a :: b :: c :: d :: rest =>
    (a.toUInt32 ||| (b.toUInt32 <<< 8) ||| (c.toUInt32 <<< 16) ||| (d.toUInt32 <<< 24)) ::
      words rest
  | _ => []

/-- Absorbs `count` blocks of sixteen words. -/
def absorbBlocks : Nat → Md5 → List UInt32 → Md5
  | 0, state, _ => state
  | count + 1, state, rest => absorbBlocks count (state.absorb (rest.take 16)) (rest.drop 16)

def ofBytes (message : List UInt8) : Md5 :=
  let padded := words (pad message)
  absorbBlocks (padded.length / 16) start padded

def hexDigits (byte : UInt8) : List Char :=
  [Nat.digitChar (byte.toNat / 16), Nat.digitChar (byte.toNat % 16)]

def toBytes (digest : Md5) : List UInt8 :=
  [digest.a, digest.b, digest.c, digest.d].flatMap fun word => littleEndian 4 word.toNat

def toHex (digest : Md5) : String :=
  String.ofList (digest.toBytes.flatMap hexDigits)

end Md5

end PuppetInventory.Digest
