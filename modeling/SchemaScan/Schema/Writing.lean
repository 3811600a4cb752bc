import SchemaScan.Schema.Piece
import SchemaScan.Schema.Syntax

/-! # Writing schema documents

Every construct has one written form. Blanks stand between words, commas between arguments, and every
member and every definition ends with its line.
-/
namespace SchemaScan.Schema

open Piece

/-! ## Literals -/

def Name.chars (n : Name) : List Char := n.first :: n.others

def Name.piece (n : Name) : Piece :=
  token (Kind.ofName (String.ofList n.chars)) (n.chars.map .scalar)

def StringToken.piece (role : StringRole) (s : StringToken) : Piece :=
  token role.kind (Rune.read s.bytes)

def ExponentSign.chars : ExponentSign → List Char
  | none => []
  | plus => ['+']
  | minus => ['-']

def Exponent.chars (e : Exponent) : List Char :=
  (if e.isCapital then 'E' else 'e') :: (e.sign.chars ++ e.digits.map (·.val))

namespace Number

def fractionChars (n : Number) : List Char :=
  match n.fraction with
  | none => []
  | some digits => '.' :: digits.map (·.val)

def exponentChars (n : Number) : List Char :=
  match n.exponent with
  | none => []
  | some e => e.chars

def chars (n : Number) : List Char :=
  (if n.isNegative then ['-'] else []) ++ (n.first.val :: n.others.map (·.val)) ++
    n.fractionChars ++ n.exponentChars

def kind (n : Number) : Kind :=
  if n.fraction.isNone && n.exponent.isNone then .int else .float

def piece (n : Number) : Piece := token n.kind (n.chars.map .scalar)

end Number

/-! ## Values and types -/

theorem Value.sizeOf_lt_list {v : Value} {vs : List Value} (h : v ∈ vs) :
    sizeOf v < sizeOf (Value.list vs) := by
  have := List.sizeOf_lt_of_mem h
  simp only [Value.list.sizeOf_spec]
  omega

theorem Value.sizeOf_lt_object {f : Name × Value} {fs : List (Name × Value)} (h : f ∈ fs) :
    sizeOf f.2 < sizeOf (Value.object fs) := by
  obtain ⟨n, v⟩ := f
  have := List.sizeOf_lt_of_mem h
  simp only [Value.object.sizeOf_spec, Prod.mk.sizeOf_spec] at this ⊢
  omega

def Value.pieces : Value → List Piece
  | .variable n => [mark .dollar, n.piece]
  | .string s => [s.piece .value]
  | .number n => [n.piece]
  | .name n => [n.piece]
  | .list vs =>
    [mark .bracketOpen, blank] ++ commas (vs.map Value.pieces) ++ [blank, mark .bracketClose]
  | .object fs =>
    [mark .braceOpen, blank] ++
      commas (fs.map fun f => [f.1.piece, mark .colon, blank] ++ Value.pieces f.2) ++
      [blank, mark .braceClose]
termination_by v => sizeOf v
decreasing_by
  · exact sizeOf_lt_list ‹_›
  · exact sizeOf_lt_object ‹_›

/-- The value of an argument or a field, with its name. -/
def field (f : Name × Value) : List Piece := [f.1.piece, mark .colon, blank] ++ f.2.pieces

def bangs (isNonNull : Bool) : List Piece := if isNonNull then [mark .bang] else []

def TypeRef.pieces : TypeRef → List Piece
  | named n isNonNull => n.piece :: bangs isNonNull
  | list n itemIsNonNull isNonNull =>
    [mark .bracketOpen, n.piece] ++ bangs itemIsNonNull ++ [mark .bracketClose] ++ bangs isNonNull

/-! ## Directives, arguments and members -/

def parenthesized (parts : List (List Piece)) : List Piece :=
  mark .parenOpen :: (commas parts ++ [mark .parenClose])

def Directive.pieces (d : Directive) : List Piece :=
  [mark .at, d.name.piece] ++ d.arguments.elim [] fun fs => parenthesized (fs.map field)

/-- What stands behind a type: a default value and directives. -/
def typeParts (default : Option Value) (directives : List Directive) : List (List Piece) :=
  (default.elim [] fun v => [[mark .equals, blank] ++ v.pieces]) ++ directives.map Directive.pieces

/-- A type and what stands behind it, with the colon in front of it. -/
def typed (type : TypeRef) (default : Option Value) (directives : List Directive) : List Piece :=
  [mark .colon, blank] ++ type.pieces ++ spaced (typeParts default directives)

def described (description : Option StringToken) (behind : Piece) : List Piece :=
  description.elim [] fun s => [s.piece .description, behind]

def Argument.pieces (a : Argument) : List Piece :=
  described a.description blank ++ [a.name.piece] ++ typed a.type a.default a.directives

def declaredArguments (arguments : Option (List Argument)) : List Piece :=
  arguments.elim [] fun as => parenthesized (as.map Argument.pieces)

def Member.pieces (m : Member) : List Piece :=
  described m.description lineBreak ++ [m.name.piece] ++
    match m.type with
    | none => spaced (m.directives.map Directive.pieces)
    | some t => declaredArguments t.arguments ++ typed t.type t.default m.directives

def block (members : List Member) : List Piece :=
  [mark .braceOpen, lineBreak] ++ lines (members.map Member.pieces) ++ [mark .braceClose]

/-! ## Definitions -/

def names (sign : Char) (ns : List Name) : List Piece :=
  separated [blank, gap [sign], blank] (ns.map ([·.piece]))

/-- What stands behind the name of a type. -/
def typeBody (directives : List Directive) (members : Option (List Member)) : List (List Piece) :=
  directives.map Directive.pieces ++ members.elim [] ([block ·])

def implementsParts : List Name → List (List Piece)
  | [] => []
  | n :: ns => [[word .implements, blank] ++ names '&' (n :: ns)]

def Definition.pieces : Definition → List Piece
  | importPath path => [word .imports, blank, path.piece .importPath]
  | importPaths paths =>
    [word .imports, blank, mark .parenOpen, lineBreak] ++
      lines (paths.map ([·.piece .importListPath])) ++ [mark .parenClose]
  | scalar n ds => [word .scalar, blank, n.piece] ++ spaced (ds.map Directive.pieces)
  | schema ds ms => word .schema :: spaced (typeBody ds (some ms))
  | type w n is ds ms =>
    [word w.keyword, blank, n.piece] ++ spaced (implementsParts is ++ typeBody ds ms)
  | union n ds first others =>
    [word .union, blank, n.piece] ++
      spaced (ds.map Directive.pieces ++ [[mark .equals, blank] ++ names '|' (first :: others)])
  | directive n arguments first others =>
    [word .directive, blank, mark .at, n.piece] ++ declaredArguments arguments ++
      spaced [[word .on, blank] ++ names '|' (first :: others)]
  | extend d => [word .extend, blank] ++ d.pieces

def Entry.pieces : Entry → List Piece
  | string s => [s.piece .value]
  | definition d => d.pieces

/-- A document, every entry with a line break behind it. -/
def document (entries : List Entry) : List Piece := lines (entries.map Entry.pieces)

/-- The source of a document. -/
def source (entries : List Entry) : List UInt8 := (allRunes (document entries)).flatMap Rune.bytes

end SchemaScan.Schema
