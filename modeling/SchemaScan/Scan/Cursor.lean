import SchemaScan.Text.NameCharacter
import SchemaScan.Text.Rune

/-! # Cursors

A cursor stands between two runes of a source. It knows how many bytes and lines lie before it,
and how far the source has been read: a decision may look at one rune more than it takes.
-/
namespace SchemaScan

namespace Rune

/-- The longest stretch of runes at the front whose characters satisfy `p`. -/
def run (p : Char → Bool) (rs : List Rune) : List Rune := rs.takeWhile (p ·.char)

/-- What follows the longest stretch of runes whose characters satisfy `p`. -/
def afterRun (p : Char → Bool) (rs : List Rune) : List Rune := rs.dropWhile (p ·.char)

theorem run_append_afterRun (p : Char → Bool) (rs : List Rune) :
    run p rs ++ afterRun p rs = rs := List.takeWhile_append_dropWhile

theorem of_mem_run {p : Char → Bool} {rs : List Rune} {r : Rune} (h : r ∈ run p rs) :
    p r.char = true := List.all_eq_true.mp List.all_takeWhile r h

theorem length_run_add (p : Char → Bool) (rs : List Rune) :
    (run p rs).length + (afterRun p rs).length = rs.length := by
  rw [← List.length_append, run_append_afterRun]

theorem length_afterRun_le (p : Char → Bool) (rs : List Rune) :
    (afterRun p rs).length ≤ rs.length := by
  have := length_run_add p rs
  omega

end Rune

/-- A place in a source. -/
structure Cursor where
  /-- The number of bytes before the cursor. -/
  offset : Nat
  /-- One more than the number of line feeds before the cursor. -/
  line : Nat
  /-- The number of bytes that have been read. -/
  seen : Nat
  /-- The runes after the cursor. -/
  rest : List Rune
  deriving DecidableEq, Repr

namespace Cursor

/-- The cursor before the first rune. -/
def start (rs : List Rune) : Cursor := ⟨0, 1, 0, rs⟩

/-- The character after the cursor, none at the end of the source. -/
def peek (c : Cursor) : Option Char := c.rest.head?.map Rune.char

/-- Reads the rune after the cursor without taking it. -/
def look (c : Cursor) : Cursor :=
  { c with seen := max c.seen (c.offset + Rune.span (c.rest.take 1)) }

/-- Moves the cursor over the runes `taken`, behind which the source goes on with `rest`. -/
def advance (c : Cursor) (taken rest : List Rune) : Cursor where
  offset := c.offset + Rune.span taken
  line := c.line + Rune.lineFeeds taken
  seen := max c.seen (c.offset + Rune.span taken)
  rest := rest

/-- Moves the cursor over one rune. -/
def next (c : Cursor) : Cursor := c.advance (c.rest.take 1) (c.rest.drop 1)

/-- Moves the cursor over the longest stretch of characters that satisfy `p`, and reads the rune
that ends the stretch. -/
def skip (p : Char → Bool) (c : Cursor) : Cursor :=
  (c.advance (Rune.run p c.rest) (Rune.afterRun p c.rest)).look

@[simp] theorem rest_look (c : Cursor) : c.look.rest = c.rest := rfl
@[simp] theorem rest_advance (c : Cursor) (taken rest : List Rune) :
    (c.advance taken rest).rest = rest := rfl
@[simp] theorem rest_next (c : Cursor) : c.next.rest = c.rest.drop 1 := rfl
@[simp] theorem rest_skip (p : Char → Bool) (c : Cursor) :
    (c.skip p).rest = Rune.afterRun p c.rest := rfl

@[simp] theorem peek_look (c : Cursor) : c.look.peek = c.peek := rfl

/-- Where there is a next character, a rune is left. -/
theorem length_next_lt {c : Cursor} {r : Char} (h : c.peek = some r) :
    c.next.rest.length < c.rest.length := by
  obtain ⟨offset, line, seen, _ | ⟨rune, rest⟩⟩ := c
  · simp [peek] at h
  · simp

theorem length_skip_le (p : Char → Bool) (c : Cursor) :
    (c.skip p).rest.length ≤ c.rest.length := Rune.length_afterRun_le ..

/-- A skip takes the next character if it satisfies the condition. -/
theorem length_skip_lt {p : Char → Bool} {c : Cursor} {r : Char} (h : c.peek = some r)
    (hp : p r = true) : (c.skip p).rest.length < c.rest.length := by
  obtain ⟨offset, line, seen, _ | ⟨rune, rest⟩⟩ := c
  · simp [peek] at h
  · have hr : p rune.char = true := by simp_all [peek]
    have := Rune.length_afterRun_le p rest
    simp only [rest_skip, Rune.afterRun, List.dropWhile_cons, hr, ↓reduceIte,
      List.length_cons] at this ⊢
    omega

end Cursor

end SchemaScan
