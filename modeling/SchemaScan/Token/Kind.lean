/-! # Kinds of tokens

A schema document is made of names and literals, of single-character marks, and of thirteen
reserved words. Comments and descriptions are kept apart from the strings they may look like, and
two kinds stand at the end of a stream: the end of input and a lexical error.
-/
namespace SchemaScan

/-- The single-character marks. -/
inductive Mark where
  | ampersand | pipe | bang | at | dollar | equals
  | parenOpen | bracketOpen | braceOpen | comma | period
  | parenClose | bracketClose | braceClose | colon
  deriving DecidableEq, Repr

def Mark.char : Mark → Char
  | ampersand => '&'
  | pipe => '|'
  | bang => '!'
  | .at => '@'
  | dollar => '$'
  | equals => '='
  | parenOpen => '('
  | bracketOpen => '['
  | braceOpen => '{'
  | comma => ','
  | period => '.'
  | parenClose => ')'
  | bracketClose => ']'
  | braceClose => '}'
  | colon => ':'

/-- The reserved words. -/
inductive Keyword where
  | package | imports | schema | type | scalar | enum | interface | implements | union | input
  | extend | directive | on
  deriving DecidableEq, Repr

namespace Keyword

def all : List Keyword :=
  [package, imports, schema, type, scalar, enum, interface, implements, union, input, extend,
    directive, on]

def spelling : Keyword → String
  | package => "package"
  | imports => "import"
  | schema => "schema"
  | type => "type"
  | scalar => "scalar"
  | enum => "enum"
  | interface => "interface"
  | implements => "implements"
  | union => "union"
  | input => "input"
  | extend => "extend"
  | directive => "directive"
  | on => "on"

/-- The reserved word with exactly this spelling; the case of letters matters. -/
def ofSpelling? (word : String) : Option Keyword := all.find? (·.spelling = word)

theorem ofSpelling?_spelling (k : Keyword) : ofSpelling? k.spelling = some k := by
  cases k <;> decide

theorem spelling_of_ofSpelling? {word : String} {k : Keyword} (h : ofSpelling? word = some k) :
    k.spelling = word := by
  simpa using List.find?_some h

end Keyword

/-- The kinds of tokens. -/
inductive Kind where
  /-- A lexical error; the text of the item is the message. -/
  | error
  | eof
  /-- From a `#` to the end of its line. -/
  | comment
  /-- A string in front of a member or an argument. -/
  | description
  /-- A name that is no reserved word. -/
  | ident
  | string
  /-- A number without a fraction or an exponent. -/
  | int
  /-- A number with a fraction or an exponent. -/
  | float
  | mark (m : Mark)
  | keyword (k : Keyword)
  deriving DecidableEq, Repr

namespace Kind

/-- The kind of a name: its reserved word, or an identifier. -/
def ofName (name : String) : Kind :=
  match Keyword.ofSpelling? name with
  | some k => keyword k
  | none => ident

/-- Names and plain literals. -/
def isLiteral : Kind → Bool
  | ident | string | int | float => true
  | _ => false

def isOperator : Kind → Bool
  | mark _ => true
  | _ => false

def isKeyword : Kind → Bool
  | keyword _ => true
  | _ => false

/-- An item of a terminal kind ends its stream. -/
def isTerminal : Kind → Bool
  | error | eof => true
  | _ => false

/-- How a kind is printed: a mark or a reserved word as it is written, any other kind by its name
in capital letters. -/
def label : Kind → String
  | error => "ERROR"
  | eof => "EOF"
  | comment => "COMMENT"
  | description => "DESCRIPTION"
  | ident => "IDENT"
  | string => "STRING"
  | int => "INT"
  | float => "FLOAT"
  | mark m => m.char.toString
  | keyword k => k.spelling

/-- A name has the kind `ident` exactly when it is no reserved word. -/
theorem ofName_eq_ident_iff {name : String} :
    ofName name = ident ↔ ∀ k : Keyword, k.spelling ≠ name := by
  unfold ofName
  split
  · rename_i k h
    simpa using ⟨k, Keyword.spelling_of_ofSpelling? h⟩
  · rename_i h
    simp only [true_iff]
    rintro k rfl
    simp [Keyword.ofSpelling?_spelling] at h

end Kind

end SchemaScan
