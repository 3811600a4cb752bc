import SchemaScan.Text.Quoted
import SchemaScan.Token.Kind

/-! # Faults

A fault is the cause of a lexical error. Its message says what was expected and quotes what was
found: the text that has been taken, or the next character.
-/
namespace SchemaScan

/-- What a plain name is used for. -/
inductive NameUse where
  | typeName | interface | member | argument | unionMember | location | directive
  | declaredDirective | objectField | variableName | value
  deriving DecidableEq, Repr

/-- What is said about a malformed name. -/
def NameUse.complaint : NameUse → String
  | typeName => "invalid type name"
  | interface => "invalid interface name in implements list"
  | member => "invalid member name"
  | argument => "invalid argument name"
  | unionMember => "invalid union member type identifier"
  | location => "invalid directive location identifier"
  | directive => "invalid directive name"
  | declaredDirective => "invalid directive identifier"
  | objectField => "invalid object field name"
  | variableName => "invalid variable name"
  | value => "invalid value"

/-- What a name is there for. -/
inductive NameRole where
  /-- The reserved word that opens a definition. -/
  | definition
  /-- The reserved word in front of the interfaces of a type. -/
  | implements
  /-- The reserved word in front of the locations of a directive. -/
  | on
  | plain (use : NameUse)
  deriving DecidableEq, Repr

/-- What a string is there for. -/
inductive StringRole where
  | value | description | importPath | importListPath
  deriving DecidableEq, Repr

/-- The kind of the item that a string makes. -/
def StringRole.kind : StringRole → Kind
  | description => .description
  | _ => .string

/-- The places where a mark is required. -/
inductive MarkPlace where
  | declaredDirective
  | directive
  /-- The colon after a member with arguments. -/
  | member
  | argument
  /-- The colon after the name of an argument of an applied directive. -/
  | directiveArgument
  | objectField
  deriving DecidableEq, Repr

def MarkPlace.mark : MarkPlace → Mark
  | declaredDirective | directive => .at
  | member | argument | directiveArgument | objectField => .colon

/-- The causes of lexical errors. -/
inductive Fault where
  /-- No definition, string or comment starts with the character. -/
  | unexpectedCharacter (c : Char)
  | invalidDefinition
  /-- No name follows the reserved word. -/
  | missingTypeName (k : Keyword)
  | unknownDefinition (k : Keyword)
  /-- The text is no name, or no name ends behind it. -/
  | malformedName (use : NameUse) (text : String)
  /-- A word between the name and the body of a type is not `implements`. -/
  | missingImplements
  /-- The locations of a directive do not start with `on`. -/
  | missingOn (text : String)
  | malformedString (role : StringRole) (text : String)
  | malformedNumber (text : String)
  /-- Another character stands where a mark is required. -/
  | missingMark (place : MarkPlace) (found : Option Char)
  /-- Neither a string nor a list follows `import`. -/
  | missingImport
  /-- No value starts with the character. -/
  | invalidValue (found : Option Char)
  /-- The character stands between the name and the body of a type. -/
  | unexpectedInDeclaration (c : Char)
  /-- A comment stands where a comma has to separate two elements. -/
  | commentBeforeComma
  | mixedSeparators
  /-- The character separates no elements of the list. -/
  | invalidSeparator (found : Option Char)
  deriving DecidableEq, Repr

namespace Fault

/-- The next character in quotes, or the end of the input. -/
def found : Option Char → String
  | some c => Quoted.ofChar c
  | none => "EOF"

def message : Fault → String
  | unexpectedCharacter c => "unexpected character: " ++ Quoted.ofChar c
  | invalidDefinition => "invalid type declaration"
  | missingTypeName k => "expected type name for type decl: " ++ k.spelling
  | unknownDefinition k => "unknown type definition: " ++ k.spelling
  | malformedName use text => use.complaint ++ ": " ++ Quoted.ofString text
  | missingImplements => "invalid identifier in object type signature"
  | missingOn text =>
    "directive decl must have locations specified with 'on' keyword, not: " ++ Quoted.ofString text
  | malformedString .value text => "bad string syntax: " ++ Quoted.ofString text
  | malformedString .description text => "bad description syntax: " ++ Quoted.ofString text
  | malformedString .importPath text => "malformed import path: " ++ Quoted.ofString text
  | malformedString .importListPath _ => "malformed import string"
  | malformedNumber text => "invalid number: " ++ Quoted.ofString text
  | missingMark .declaredDirective _ => "directive decl must begin with a '@'"
  | missingMark .directive _ => "directive must begin with an '@'"
  | missingMark .member _ => "missing ':' in fields definition"
  | missingMark .argument _ => "missing ':' in args definition"
  | missingMark .directiveArgument c => "expected ':' instead of: " ++ found c
  | missingMark .objectField c => "expected field name-value separator ':' but got " ++ found c
  | missingImport => "missing ( or \" to begin import statement"
  | invalidValue c => "invalid value: " ++ found c
  | unexpectedInDeclaration c =>
    "unexpected character encountered in object declaration: " ++ Quoted.ofChar c
  | commentBeforeComma => "expected a comma list separator before comment in list"
  | mixedSeparators => "list separator must remain the same throughout the list"
  | invalidSeparator c => "invalid list separator: " ++ found c

end Fault

end SchemaScan
