import Tabular.Digest.Sha1

/-!
# Name-based identifiers

A universally unique identifier of version 5 is derived from a namespace and a name: the SHA-1
digest of both, cut to sixteen bytes, with the version and variant bits set. The same name in the
same namespace always has the same identifier.

## Main definitions

* `Uuid.ofName`: the identifier of a name.
* `Uuid.text`: the hyphenated lower-case text.
-/

namespace Tabular

/-- An identifier of sixteen bytes. -/
structure Uuid where
  bytes : List UInt8
  deriving DecidableEq

namespace Uuid

/-- The namespace of domain names. -/
def domainNames : Uuid :=
  ⟨[0x6b, 0xa7, 0xb8, 0x10, 0x9d, 0xad, 0x11, 0xd1, 0x80, 0xb4,
    0x00, 0xc0, 0x4f, 0xd4, 0x30, 0xc8]⟩

/-- The namespace of object identifiers. -/
def objectIdentifiers : Uuid :=
  ⟨[0x6b, 0xa7, 0xb8, 0x12, 0x9d, 0xad, 0x11, 0xd1, 0x80, 0xb4,
    0x00, 0xc0, 0x4f, 0xd4, 0x30, 0xc8]⟩

/-- The version 5 identifier of a name in a namespace. -/
def ofName (space : Uuid) (name : String) : Uuid :=
  let digest := Sha1.digest (space.bytes ++ name.toUTF8.data.toList)
  ⟨(digest.take 16).mapIdx fun i b =>
    if i = 6 then (b &&& 0x0f) ||| 0x50
    else if i = 8 then (b &&& 0x3f) ||| 0x80
    else b⟩

/-- The two hexadecimal digits of a byte. -/
def byteText (b : UInt8) : List Char :=
  [Nat.digitChar (b.toNat / 16), Nat.digitChar (b.toNat % 16)]

/-- The text of an identifier, in groups of 8, 4, 4, 4 and 12 digits. -/
def text (u : Uuid) : String :=
  let group (start count : Nat) :=
    String.ofList (((u.bytes.drop start).take count).flatMap byteText)
  String.intercalate "-" [group 0 4, group 4 2, group 6 2, group 8 2, group 10 6]

end Uuid

end Tabular
