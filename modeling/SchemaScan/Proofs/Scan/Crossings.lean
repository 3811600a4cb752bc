import SchemaScan.Proofs.Text.Runes
import SchemaScan.Scan.Cursor

/-! # Cursors on their way

A cursor moves forward only. From one cursor to another the source is crossed, and it is read at least up to
where the second one stands.
-/
namespace SchemaScan

namespace Cursor

/-- Moving over the runes `taken` leads from `c` to `d`. -/
structure Crosses (c : Cursor) (taken : List Rune) (d : Cursor) : Prop where
  rest : c.rest = taken ++ d.rest
  offset : d.offset = c.offset + Rune.span taken
  line : d.line = c.line + Rune.lineFeeds taken

namespace Crosses

theorem refl (c : Cursor) : c.Crosses [] c := ⟨rfl, rfl, rfl⟩

theorem trans {c d e : Cursor} {a b : List Rune} (h : c.Crosses a d) (h' : d.Crosses b e) :
    c.Crosses (a ++ b) e := by
  refine ⟨?_, ?_, ?_⟩
  · rw [h.rest, h'.rest, List.append_assoc]
  · rw [h'.offset, h.offset, Rune.span_append, Nat.add_assoc]
  · rw [h'.line, h.line, Rune.lineFeeds_append, Nat.add_assoc]

theorem look {c d : Cursor} {taken : List Rune} (h : c.Crosses taken d) : c.Crosses taken d.look :=
  ⟨h.rest, h.offset, h.line⟩

theorem of_look {c d : Cursor} {taken : List Rune} (h : c.look.Crosses taken d) :
    c.Crosses taken d := ⟨h.rest, h.offset, h.line⟩

theorem advance {c : Cursor} {taken rest : List Rune} (h : taken ++ rest = c.rest) :
    c.Crosses taken (c.advance taken rest) := ⟨h.symm, rfl, rfl⟩

theorem next (c : Cursor) : c.Crosses (c.rest.take 1) c.next :=
  advance (List.take_append_drop 1 c.rest)

theorem skip (p : Char → Bool) (c : Cursor) : c.Crosses (Rune.run p c.rest) (c.skip p) :=
  (advance (Rune.run_append_afterRun p c.rest)).look

theorem offset_le {c d : Cursor} {taken : List Rune} (h : c.Crosses taken d) :
    c.offset ≤ d.offset := by
  rw [h.offset]
  omega

end Crosses

/-- A rune is left where there is a next character. -/
theorem take_ne_nil {c : Cursor} {r : Char} (h : c.peek = some r) : c.rest.take 1 ≠ [] := by
  intro hn
  rw [List.take_eq_nil_iff] at hn
  rcases hn with hn | hn
  · cases hn
  · simp [peek, hn] at h

theorem rest_eq_nil {c : Cursor} (h : c.peek = none) : c.rest = [] := by
  simpa [peek] using h

/-- A stretch that the next character begins is not empty. -/
theorem run_ne_nil {c : Cursor} {p : Char → Bool} {r : Char} (h : c.peek = some r)
    (hp : p r = true) : Rune.run p c.rest ≠ [] := by
  intro hn
  have hs := Rune.length_run_add p c.rest
  have hl := length_skip_lt h hp
  rw [hn, List.length_nil] at hs
  rw [rest_skip] at hl
  omega

/-- With the second cursor all has been read that had been with the first one, and all before it. -/
structure Sights (c d : Cursor) : Prop where
  offset : c.offset ≤ d.seen
  seen : c.seen ≤ d.seen

namespace Sights

variable {c d e : Cursor}

theorem trans (h : c.Sights d) (h' : d.Sights e) : c.Sights e :=
  ⟨Nat.le_trans h.offset h'.seen, Nat.le_trans h.seen h'.seen⟩

theorem look (h : c.Sights d) : c.Sights d.look :=
  ⟨Nat.le_trans h.offset (Nat.le_max_left ..), Nat.le_trans h.seen (Nat.le_max_left ..)⟩

theorem of_look (h : c.look.Sights d) : c.Sights d :=
  ⟨h.offset, Nat.le_trans (Nat.le_max_left ..) h.seen⟩

end Sights

variable (c : Cursor)

theorem sights_look : c.Sights c.look :=
  ⟨Nat.le_trans (Nat.le_add_right ..) (Nat.le_max_right ..), Nat.le_max_left ..⟩

theorem look_sights_look : c.look.Sights c.look := ⟨c.sights_look.offset, Nat.le_refl _⟩

theorem sights_advance (taken rest : List Rune) : c.Sights (c.advance taken rest) :=
  ⟨Nat.le_trans (Nat.le_add_right ..) (Nat.le_max_right ..), Nat.le_max_left ..⟩

theorem sights_next : c.Sights c.next := c.sights_advance ..

theorem sights_skip (p : Char → Bool) : c.Sights (c.skip p) := (c.sights_advance ..).look

theorem look_look : c.look.look = c.look := by
  simp only [look]
  congr 1
  omega

/-- A skip that finds nothing only looks. -/
theorem skip_of_not {c : Cursor} {p : Char → Bool} (h : c.peek.any p = false) :
    c.skip p = c.look := by
  obtain ⟨offset, line, seen, _ | ⟨r, rest⟩⟩ := c
  · simp [skip, look, advance, Rune.run, Rune.afterRun]
  · have hr : p r.char = false := by simpa [peek] using h
    simp only [skip, look, advance, Rune.run, Rune.afterRun, List.takeWhile_cons, hr,
      Bool.false_eq_true, ↓reduceIte, List.dropWhile_cons, Rune.span_nil, Rune.lineFeeds_nil,
      Nat.add_zero]
    congr 1
    omega

/-- Where a skip has ended there is nothing to skip. -/
theorem skip_skip (p : Char → Bool) : (c.skip p).skip p = c.skip p := by
  have hnone : (c.skip p).peek.any p = false := by
    have hnot := List.head?_dropWhile_not (p ·.char) c.rest
    cases hr : (Rune.afterRun p c.rest).head? with
    | none => simp [peek, hr]
    | some r =>
      rw [Rune.afterRun] at hr
      rw [hr] at hnot
      simpa [peek, Rune.afterRun, hr] using hnot
  rw [skip_of_not hnone]
  exact look_look _

/-- Moving over the runes `taken` leads from `c` to `d`, and all up to `c` has been read by then. -/
structure Proceeds (c : Cursor) (taken : List Rune) (d : Cursor) : Prop where
  crosses : c.Crosses taken d
  sights : c.Sights d

theorem proceeds_next : c.Proceeds (c.rest.take 1) c.next := ⟨.next c, c.sights_next⟩

theorem proceeds_skip (p : Char → Bool) : c.Proceeds (Rune.run p c.rest) (c.skip p) :=
  ⟨.skip p c, c.sights_skip p⟩

theorem Proceeds.of_look {c d : Cursor} {taken : List Rune} (h : c.look.Proceeds taken d) :
    c.Proceeds taken d := ⟨h.crosses.of_look, h.sights.of_look⟩

/-- A recogniser takes runes from the front of what is left, and looks at the next one. -/
theorem proceeds_read {c : Cursor} {taken rest : List Rune} (h : taken ++ rest = c.rest) :
    c.Proceeds taken (c.advance taken rest).look :=
  ⟨(Crosses.advance h).look, (c.sights_advance taken rest).look⟩

end Cursor

end SchemaScan
