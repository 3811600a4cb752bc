import SchemaScan.Scan.Literal
import SchemaScan.Text.NameCharacter
import SchemaScan.Token.Kind

/-! # Syntax of schema documents

A document is a list of definitions, with strings between them. Names, strings and numbers carry the
evidence that they are well formed.
-/
namespace SchemaScan.Schema

/-- A name in one segment. -/
structure Name where
  first : Char
  others : List Char
  first_isNameStart : isNameStart first = true
  others_isNameContinue : ∀ c ∈ others, isNameContinue c = true

/-- A string or a block string, quotes included. -/
structure StringToken where
  bytes : List UInt8
  isString : (StringLiteral.read (Rune.read bytes)).value = true
  isWhole : (StringLiteral.read (Rune.read bytes)).rest = []

abbrev Digit := { c : Char // c.isDigit = true }

inductive ExponentSign where
  | none | plus | minus
  deriving DecidableEq, Repr

/-- An exponent; there may be no digit in it. -/
structure Exponent where
  isCapital : Bool
  sign : ExponentSign
  digits : List Digit

/-- A number; there may be no digit behind its point. -/
structure Number where
  isNegative : Bool
  first : Digit
  others : List Digit
  fraction : Option (List Digit)
  exponent : Option Exponent

inductive Value where
  | variable (n : Name)
  | string (s : StringToken)
  | number (n : Number)
  | name (n : Name)
  | list (vs : List Value)
  | object (fs : List (Name × Value))

/-- A type, which may be a list of another, with its non-null marks. -/
inductive TypeRef where
  | named (n : Name) (isNonNull : Bool)
  | list (n : Name) (itemIsNonNull isNonNull : Bool)

structure Directive where
  name : Name
  arguments : Option (List (Name × Value))

structure Argument where
  description : Option StringToken
  name : Name
  type : TypeRef
  default : Option Value
  directives : List Directive

/-- The type of a member, with the arguments in front of it and the default value behind it. -/
structure MemberType where
  arguments : Option (List Argument)
  type : TypeRef
  default : Option Value

/-- A field, an input field or an enum value. -/
structure Member where
  description : Option StringToken
  name : Name
  type : Option MemberType
  directives : List Directive

/-- The reserved words of the definitions that may have interfaces. -/
inductive TypeWord where
  | type | interface | input | enum
  deriving DecidableEq, Repr

def TypeWord.keyword : TypeWord → Keyword
  | type => .type
  | interface => .interface
  | input => .input
  | enum => .enum

inductive Definition where
  | importPath (path : StringToken)
  | importPaths (paths : List StringToken)
  | scalar (n : Name) (directives : List Directive)
  | schema (directives : List Directive) (members : List Member)
  /-- A type without members has no block or an empty one. -/
  | type (word : TypeWord) (n : Name) (interfaces : List Name) (directives : List Directive)
      (members : Option (List Member))
  | union (n : Name) (directives : List Directive) (first : Name) (others : List Name)
  | directive (n : Name) (arguments : Option (List Argument)) (first : Name) (others : List Name)
  | extend (d : Definition)

/-- What may stand at the top level of a document. -/
inductive Entry where
  | string (s : StringToken)
  | definition (d : Definition)

end SchemaScan.Schema
