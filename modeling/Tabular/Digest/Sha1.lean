/-!
# The SHA-1 digest

A message is padded to whole blocks of 64 bytes; each block is expanded to eighty words, which
drive eighty rounds over five 32-bit registers. The digest is the final value of the registers.

## Main definitions

* `Sha1.pad`: the message with its length appended.
* `Sha1.compress`: one block.
* `Sha1.digest`: the twenty bytes of the digest.
-/

namespace Tabular.Sha1

/-- The five registers. -/
structure Registers where
  a : UInt32
  b : UInt32
  c : UInt32
  d : UInt32
  e : UInt32

/-- The registers before the first block. -/
def Registers.initial : Registers :=
  ⟨0x67452301, 0xefcdab89, 0x98badcfe, 0x10325476, 0xc3d2e1f0⟩

/-- Rotation to the left by fewer than 32 places. -/
def rotateLeft (x : UInt32) (n : UInt32) : UInt32 :=
  (x <<< n) ||| (x >>> (32 - n))

/-- The bytes of a number, most significant first, in a field of the given width. -/
def bigEndian (width n : Nat) : List UInt8 :=
  (List.range width).reverse.map fun i => UInt8.ofNat (n >>> (8 * i))

/-- The message, a one bit, zeros up to eight bytes before a block boundary, and the length of
the message in bits. -/
def pad (message : List UInt8) : List UInt8 :=
  let zeros := (119 - message.length % 64) % 64
  message ++ 0x80 :: List.replicate zeros 0 ++ bigEndian 8 (8 * message.length)

/-- The big-endian words of a list of bytes; an incomplete last word is dropped. -/
def words : List UInt8 → List UInt32
  | b₀ :: b₁ :: b₂ :: b₃ :: rest =>
    ((b₀.toUInt32 <<< 24) ||| (b₁.toUInt32 <<< 16) ||| (b₂.toUInt32 <<< 8) ||| b₃.toUInt32)
      :: words rest
  | _ => []

/-- `n` further words of a message schedule whose words are listed newest first. -/
def extend : Nat → List UInt32 → List UInt32
  | 0, newest => newest
  | n + 1, newest =>
    let word := newest.getD 2 0 ^^^ newest.getD 7 0 ^^^ newest.getD 13 0 ^^^ newest.getD 15 0
    extend n (rotateLeft word 1 :: newest)

/-- The eighty words that a block of sixteen words expands to. -/
def schedule (block : List UInt32) : List UInt32 :=
  (extend 64 block.reverse).reverse

/-- The mixing function and the constant of a round. -/
def mix (round : Nat) (b c d : UInt32) : UInt32 × UInt32 :=
  if round < 20 then ((b &&& c) ||| (~~~b &&& d), 0x5a827999)
  else if round < 40 then (b ^^^ c ^^^ d, 0x6ed9eba1)
  else if round < 60 then ((b &&& c) ||| (b &&& d) ||| (c &&& d), 0x8f1bbcdc)
  else (b ^^^ c ^^^ d, 0xca62c1d6)

/-- One round on the registers. -/
def Registers.round (r : Registers) (step : UInt32 × Nat) : Registers :=
  let (word, index) := step
  let (f, k) := mix index r.b r.c r.d
  ⟨rotateLeft r.a 5 + f + r.e + k + word, r.a, rotateLeft r.b 30, r.c, r.d⟩

/-- The registers after one block. -/
def compress (r : Registers) (block : List UInt32) : Registers :=
  let s := (schedule block).zipIdx.foldl Registers.round r
  ⟨r.a + s.a, r.b + s.b, r.c + s.c, r.d + s.d, r.e + s.e⟩

/-- The registers after all blocks of sixteen words; `n` bounds the number of blocks. -/
def compressAll : Nat → Registers → List UInt32 → Registers
  | 0, r, _ => r
  | n + 1, r, ws => compressAll n (compress r (ws.take 16)) (ws.drop 16)

/-- The digest of a message. -/
def digest (message : List UInt8) : List UInt8 :=
  let ws := words (pad message)
  let r := compressAll (ws.length / 16) .initial ws
  [r.a, r.b, r.c, r.d, r.e].flatMap fun x => bigEndian 4 x.toNat

end Tabular.Sha1
