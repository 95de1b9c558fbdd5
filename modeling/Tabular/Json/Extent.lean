import Tabular.Json.Lexer

/-!
# Values of limited extent

Some records in a text have to look at all of their members before they know which of them count.
Every value in such a record is held to the limits of the format, also where it is not used: its
strings stand for texts, its numbers have double precision, and it is not nested too deeply.

A number is read as a significand of at most 64 bits and a power of ten. Both are rounded to double
precision before they are multiplied, and the product has to be finite.

## Main definitions

* `Json.Scaled`: a significand and a power of ten.
* `Json.Scaled.isFinite`: numbers of double precision.
* `Json.fits`: values within the limits.
-/

namespace Tabular.Json

/-- The greatest number of 64 bits. -/
def maxSignificand : Nat :=
  0xffffffffffffffff

/-- The greatest exponent of ten that is read; it has 31 bits. -/
def maxExponent : Nat :=
  0x7fffffff

/-- The least magnitude that rounds to infinity in double precision: the middle between the
greatest finite number and the power of two above it. -/
def overflowBound : Nat :=
  Nat.pow 2 1024 - Nat.pow 2 970

/-- A natural number rounded to the 53 significant bits of double precision, halves to even. -/
def nearestDouble (n : Nat) : Nat :=
  let unit := Nat.pow 2 (n.log2 - 52)
  let quotient := n / unit
  let remainder := n % unit
  if 2 * remainder < unit || (2 * remainder = unit && quotient % 2 = 0) then quotient * unit
  else (quotient + 1) * unit

/-- The number `significand` times ten to the power `exponent`. -/
structure Scaled where
  significand : Nat
  exponent : Int

namespace Scaled

/-- The significand with one more digit, if it stays within 64 bits. -/
def withDigit? (significand : Nat) (c : Char) : Option Nat :=
  let next := 10 * significand + (c.toNat - '0'.toNat)
  if next ≤ maxSignificand then some next else none

/-- The number with further digits before the point. From the first digit that does not fit, the
digits count for the exponent only. -/
def whole (significand : Nat) : List Char → Scaled
  | [] => ⟨significand, 0⟩
  | c :: rest =>
    match withDigit? significand c with
    | some next => whole next rest
    | none => ⟨significand, rest.length + 1⟩

/-- The number with further digits after the point. From the first digit that does not fit, the
digits do not count. -/
def fraction (n : Scaled) : List Char → Scaled
  | [] => n
  | c :: rest =>
    match withDigit? n.significand c with
    | some next => fraction ⟨next, n.exponent - 1⟩ rest
    | none => n

/-- Whether the number is finite in double precision. Powers of ten end at the 308th. -/
def isFinite (n : Scaled) : Bool :=
  n.significand = 0 || n.exponent < 0 ||
    (n.exponent ≤ 308 &&
      nearestDouble n.significand * nearestDouble (Nat.pow 10 n.exponent.toNat) < overflowBound)

/-- Whether the number times ten to the power that the digits write is finite. An exponent of too
many bits leaves nothing of zero and of negative powers, and everything else infinite. -/
def isFiniteTimes (n : Scaled) (negative : Bool) (digits : List Char) : Bool :=
  let exponent := Lexer.decimalValue digits
  if maxExponent < exponent then n.significand = 0 || negative
  else
    isFinite { n with
      exponent := if negative then n.exponent - exponent else n.exponent + exponent }

/-- Whether the number is finite once its exponent is read: nothing, or a letter, an optional sign,
and digits. -/
def isFiniteBefore (n : Scaled) : List Char → Bool
  | [] => n.isFinite
  | _ :: '-' :: digits => n.isFiniteTimes true digits
  | _ :: '+' :: digits => n.isFiniteTimes false digits
  | _ :: digits => n.isFiniteTimes false digits

end Scaled

/-- Whether the number that the characters write is finite in double precision. -/
def isFinite (cs : List Char) : Bool :=
  let unsigned := cs.dropWhile fun c => c = '-'
  let number := Scaled.whole 0 (unsigned.takeWhile Char.isDigit)
  match unsigned.dropWhile Char.isDigit with
  | '.' :: rest =>
    (number.fraction (rest.takeWhile Char.isDigit)).isFiniteBefore (rest.dropWhile Char.isDigit)
  | rest => number.isFiniteBefore rest

mutual

/-- Whether a value keeps to the limits of the format, with at most the given number of arrays and
objects inside each other. Integers of 64 bits are exact; longer ones have double precision. -/
def fits (depth : Nat) : Json → Bool
  | .null | .bool _ | .str _ => true
  | .garbled => false
  | .int n => n.natAbs ≤ maxSignificand || isFinite (Nat.toDigits 10 n.natAbs)
  | .decimal text => isFinite text.toList
  | .arr items => 0 < depth && itemsFit (depth - 1) items
  | .obj members => 0 < depth && membersFit (depth - 1) members

/-- Whether all items of an array keep to the limits. -/
def itemsFit (depth : Nat) : List Json → Bool
  | [] => true
  | v :: rest => fits depth v && itemsFit depth rest

/-- Whether all members of an object keep to the limits. -/
def membersFit (depth : Nat) : List (String × Json) → Bool
  | [] => true
  | (_, v) :: rest => fits depth v && membersFit depth rest

end

end Tabular.Json
