import Tabular.Error
import Tabular.Text.Classes
import Tabular.Text.Pattern

/-!
# Versions

Versions `major.minor.patch` of the target technology and of the data standard, and the questions
that the derivation asks of them.

## Main definitions

* `Version`: a version.
* `Version.pattern`, `Version.number?`: what a version text looks like, and its numbers.
* `Version.parse`, `Version.text`: reading and writing.
* `Version.isAtLeast`: the comparison behind every gate.
* `Version.sortsColumns`, `Version.parentKeysFirst`, `Version.mergesInPlace`,
  `Version.hasMapTypes`: the gates.
-/

namespace Tabular

/-- A version of three 32-bit parts. -/
structure Version where
  major : UInt32
  minor : UInt32
  patch : UInt32
  deriving DecidableEq

namespace Version

/-- The target version of a run that names none. -/
def latest : Version :=
  ⟨7, 1, 0⟩

/-- Whether the version is `major.minor` or later; the patch does not count. -/
def isAtLeast (v : Version) (major minor : Nat) : Bool :=
  major < v.major.toNat || (v.major.toNat = major && minor ≤ v.minor.toNat)

/-- Columns of a finished table are sorted. -/
def sortsColumns (v : Version) : Bool :=
  v.isAtLeast 7 0

/-- The join table of a common lists its parent keys before its own columns. -/
def parentKeysFirst (v : Version) : Bool :=
  v.isAtLeast 7 0

/-- A repeated column stays where it first stood. -/
def mergesInPlace (v : Version) : Bool :=
  v.isAtLeast 7 0

/-- Descriptors of this data standard can carry map type tables. -/
def hasMapTypes (v : Version) : Bool :=
  !v.isAtLeast 3 0

/-- The order of versions, part by part. -/
def compare (v w : Version) : Ordering :=
  (Ord.compare v.major.toNat w.major.toNat).then
    ((Ord.compare v.minor.toNat w.minor.toNat).then (Ord.compare v.patch.toNat w.patch.toNat))

/-- The text of a version, always with its patch. -/
def text (v : Version) : String :=
  s!"{v.major.toNat}.{v.minor.toNat}.{v.patch.toNat}"

/-- The pattern of version texts: an optional `v`, two or three numbers divided by dots, which are
the groups, and an optional suffix. The digits may be of any script. -/
def pattern : Pattern :=
  .seq .start <|
  .seq (.optional (.one fun c => c = 'v')) <|
  .seq (.group 1 (.run Text.isDecimalDigit)) <|
  .seq (.one fun c => c = '.') <|
  .seq (.group 2 (.run Text.isDecimalDigit)) <|
  .seq (.optional (.seq (.one fun c => c = '.') (.group 3 (.run Text.isDecimalDigit)))) <|
  .seq (.optional (.seq (.one fun c => c = '-' || c = '+')
    (.run fun c => c.isAlphanum || c = '.' || c = '-'))) <|
  .finish

/-- The number of 32 bits that the characters write: one or more ASCII digits, a plus sign before
them aside. -/
def number? (cs : List Char) : Option UInt32 :=
  let digits := match cs with
    | '+' :: rest => rest
    | _ => cs
  let n := digits.foldl (fun n c => 10 * n + (c.toNat - '0'.toNat)) 0
  if !digits.isEmpty && digits.all Char.isDigit && n < 0x100000000 then some (UInt32.ofNat n)
  else none

/-- The number that a group stands for, zero if there is no such group. -/
def part? (groups : Pattern.Groups) (index : Nat) : Option UInt32 :=
  match groups.lookup index with
  | some digits => number? digits
  | none => some 0

/-- The version whose parts are the groups. -/
def ofGroups? (groups : Pattern.Groups) : Option Version := do
  let major ← part? groups 1
  let minor ← part? groups 2
  let patch ← part? groups 3
  return ⟨major, minor, patch⟩

/-- The version a text writes, white space at its ends aside, given how to search for a pattern. -/
def parseBy (search : Pattern → List Char → Option Pattern.Groups) (input : String) :
    BuildResult Version :=
  match (search pattern (Text.trimChars input.toList)).bind ofGroups? with
  | some v => .ok v
  | none => .error (.invalidVersion input)

/-- The version a text writes, white space at its ends aside. -/
def parse (input : String) : BuildResult Version :=
  parseBy Pattern.search input

end Version

end Tabular
