/-!
# Kinds of values, properties and entities

The closed sets of kinds that a model distinguishes.

## Main definitions

* `ScalarType`: types of values that fill a single column.
* `PropertyKind`: a scalar, a lookup, a reference to an entity, or a composite.
* `EntityKind`: what an entity of the model is.
-/

namespace Tabular

/-- The type of a value that fills one column. -/
inductive ScalarType where
  | boolean
  | currency
  | date
  | datetime
  | duration
  | integer
  | bigInteger
  | percent
  | short
  | time
  | year
  | decimal (precision scale : Nat)
  | string (minLength : Option Nat) (maxLength : Nat)
  deriving DecidableEq

/-- The name of a scalar type, its parameters aside. -/
def ScalarType.name : ScalarType → String
  | boolean => "boolean"
  | currency => "currency"
  | date => "date"
  | datetime => "datetime"
  | duration => "duration"
  | integer => "integer"
  | bigInteger => "bigInteger"
  | percent => "percent"
  | short => "short"
  | time => "time"
  | year => "year"
  | decimal _ _ => "decimal"
  | string _ _ => "string"

/-- Texts of at most the given length. -/
def ScalarType.text (maxLength : Nat) : ScalarType :=
  .string none maxLength

/-- What a property holds. -/
inductive PropertyKind where
  /-- A value of its own. -/
  | scalar (type : ScalarType)
  | descriptor
  | enumeration
  | schoolYearEnumeration
  /-- A reference to an association. -/
  | association
  /-- A reference to a domain entity. -/
  | domainEntity
  /-- A composite with tables of its own. -/
  | common
  /-- A composite of alternatives. -/
  | choice
  /-- A composite written into the table of its owner. -/
  | inlineCommon
  deriving DecidableEq

namespace PropertyKind

/-- The name of a kind. -/
def name : PropertyKind → String
  | scalar type => type.name
  | descriptor => "descriptor"
  | enumeration => "enumeration"
  | schoolYearEnumeration => "schoolYearEnumeration"
  | association => "association"
  | domainEntity => "domainEntity"
  | common => "common"
  | choice => "choice"
  | inlineCommon => "inlineCommon"

/-- The column type of a scalar. -/
def scalarType? : PropertyKind → Option ScalarType
  | scalar type => some type
  | _ => none

/-- A value of its own. -/
def isScalar : PropertyKind → Bool
  | scalar _ => true
  | _ => false

/-- A reference to an association or a domain entity. -/
def isEntityReference : PropertyKind → Bool
  | association | domainEntity => true
  | _ => false

/-- A value out of a lookup table. -/
def isLookup : PropertyKind → Bool
  | descriptor | enumeration | schoolYearEnumeration => true
  | _ => false

/-- Kinds that have to name a referenced entity: all but scalars and school years. -/
def requiresReferencedEntity : PropertyKind → Bool
  | scalar _ | schoolYearEnumeration => false
  | _ => true

end PropertyKind

/-- What an entity is. -/
inductive EntityKind where
  | domainEntity
  | domainEntitySubclass
  | domainEntityExtension
  | association
  | associationSubclass
  | associationExtension
  | descriptor
  | enumeration
  | mapTypeEnumeration
  | schoolYearEnumeration
  | common
  | commonExtension
  | inlineCommon
  | choice
  deriving DecidableEq

namespace EntityKind

/-- All kinds. -/
def all : List EntityKind :=
  [domainEntity, domainEntitySubclass, domainEntityExtension, association, associationSubclass,
    associationExtension, descriptor, enumeration, mapTypeEnumeration, schoolYearEnumeration,
    common, commonExtension, inlineCommon, choice]

/-- The name of a kind. -/
def name : EntityKind → String
  | domainEntity => "domainEntity"
  | domainEntitySubclass => "domainEntitySubclass"
  | domainEntityExtension => "domainEntityExtension"
  | association => "association"
  | associationSubclass => "associationSubclass"
  | associationExtension => "associationExtension"
  | descriptor => "descriptor"
  | enumeration => "enumeration"
  | mapTypeEnumeration => "mapTypeEnumeration"
  | schoolYearEnumeration => "schoolYearEnumeration"
  | common => "common"
  | commonExtension => "commonExtension"
  | inlineCommon => "inlineCommon"
  | choice => "choice"

/-- The kind in words. -/
def label : EntityKind → String
  | domainEntity => "Domain Entity"
  | domainEntitySubclass => "Domain Entity Subclass"
  | domainEntityExtension => "Domain Entity Extension"
  | association => "Association"
  | associationSubclass => "Association Subclass"
  | associationExtension => "Association Extension"
  | descriptor => "Descriptor"
  | enumeration => "Enumeration"
  | mapTypeEnumeration => "Map Type Enumeration"
  | schoolYearEnumeration => "School Year Enumeration"
  | common => "Common"
  | commonExtension => "Common Extension"
  | inlineCommon => "Inline Common"
  | choice => "Choice"

/-- A kind that inherits the key of its base. -/
def isSubclass : EntityKind → Bool
  | domainEntitySubclass | associationSubclass => true
  | _ => false

/-- A kind that adds columns to its base. -/
def isExtension : EntityKind → Bool
  | domainEntityExtension | associationExtension | commonExtension => true
  | _ => false

end EntityKind

end Tabular
