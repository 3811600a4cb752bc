import SchemaScan.Text.Utf8

/-! # Runes

A rune is one character as it stands in a source: a scalar value in UTF-8, or a single byte that
begins none. Reading splits a source into runes and loses nothing: the bytes of the runes, one
after the other, are the source (`flatMap_bytes_read`).
-/
namespace SchemaScan

/-- A unit of source text. -/
inductive Rune where
  /-- A scalar value, written in UTF-8. -/
  | scalar (c : Char)
  /-- A byte at which no UTF-8 sequence begins. -/
  | stray (b : UInt8)
  deriving DecidableEq, Repr

namespace Rune

/-- The character that a rune stands for; a stray byte stands for U+FFFD. -/
def char : Rune → Char
  | scalar c => c
  | stray _ => '\uFFFD'

/-- The bytes that a rune occupies in the source. -/
def bytes : Rune → List UInt8
  | scalar c => String.utf8EncodeChar c
  | stray b => [b]

/-- The number of bytes that a rune occupies. -/
def width (r : Rune) : Nat := r.bytes.length

/-- Splits a source into runes. -/
def read (source : List UInt8) : List Rune :=
  match _decoded : Utf8.decodeFirst? source with
  | some (c, rest) => scalar c :: read rest
  | none =>
    match source with
    | [] => []
    | b :: rest => stray b :: read rest
termination_by source.length
decreasing_by
  · exact Utf8.decodeFirst?_length_lt _decoded
  · simp

/-- The bytes of the runes, one after the other, are the source. -/
theorem flatMap_bytes_read (source : List UInt8) : (read source).flatMap bytes = source := by
  fun_induction read source with
  | case1 source c rest h ih =>
    rw [List.flatMap_cons, ih]
    exact (Utf8.eq_encode_of_decodeFirst? h).symm
  | case2 => rfl
  | case3 b rest h ih => simp [List.flatMap_cons, bytes, ih]

/-- The number of bytes that a stretch of runes occupies. -/
def span : List Rune → Nat
  | [] => 0
  | r :: rs => r.width + span rs

/-- The number of line feeds among the runes. -/
def lineFeeds (rs : List Rune) : Nat := rs.countP (·.char = '\n')

/-- The text of a stretch of runes; stray bytes that belong to one broken sequence share one
U+FFFD. -/
def text (rs : List Rune) : String := Utf8.lossy (rs.flatMap bytes)

end Rune

end SchemaScan
