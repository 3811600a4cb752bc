import SchemaScan.Scan.Step

/-! # Pieces of a document

A document that is written down is a sequence of tokens with gaps between them. The pieces say what
the source is and which tokens a scan has to find in it.
-/
namespace SchemaScan.Schema

inductive Piece where
  | token (kind : Kind) (runes : List Rune)
  /-- Layout, or a separator that is no token. -/
  | gap (chars : List Char)
  deriving DecidableEq, Repr

namespace Piece

def runes : Piece → List Rune
  | token _ rs => rs
  | gap cs => cs.map .scalar

def allRunes (ps : List Piece) : List Rune := ps.flatMap runes

/-- The tokens of a document of which `offset` bytes and `line - 1` lines lie before. -/
def lexemes : (offset line : Nat) → List Piece → List Lexeme
  | _, _, [] => []
  | offset, line, token kind rs :: ps =>
    ⟨kind, offset, rs, line + Rune.lineFeeds rs⟩ ::
      lexemes (offset + Rune.span rs) (line + Rune.lineFeeds rs) ps
  | offset, line, gap cs :: ps =>
    lexemes (offset + Rune.span (cs.map .scalar)) (line + Rune.lineFeeds (cs.map .scalar)) ps

def blank : Piece := gap [' ']

def lineBreak : Piece := gap ['\n']

def mark (m : Mark) : Piece := token (.mark m) [.scalar m.char]

def word (k : Keyword) : Piece := token (.keyword k) (k.spelling.toList.map .scalar)

/-- Parts, with a blank in front of each. -/
def spaced (parts : List (List Piece)) : List Piece := parts.flatMap (blank :: ·)

/-- Parts, with a separator between each two of them. -/
def separated (separator : List Piece) : List (List Piece) → List Piece
  | [] => []
  | part :: parts => part ++ parts.flatMap (separator ++ ·)

/-- Parts, with a comma and a blank between each two of them. -/
def commas : List (List Piece) → List Piece := separated [gap [','], blank]

/-- Parts, each with a line break behind it. -/
def lines (parts : List (List Piece)) : List Piece := parts.flatMap (· ++ [lineBreak])

end Piece

end SchemaScan.Schema
