import Mathlib.Data.Prod.Lex
import SchemaScan.Proofs.Source.Overrides

/-! # Lines and columns

After any history the lines of a document are in order. The line of a position is then the number of lines
that have started, its column counts from the start of the last of them, and positions that follow one
another have places that follow one another.
-/
namespace SchemaScan

/-- Line and column, ordered by the line first. -/
def Location.place (l : Location) : Nat ×ₗ Nat := toLex (l.line, l.column)

namespace LineTable

/-- The location has the line and the column that its offset has in the table. -/
structure Places (table : LineTable) (l : Location) : Prop where
  line : l.line = table.countP (· ≤ l.offset)
  /-- The line has started and the next one, if there is one, has not. -/
  placed : ∀ k, l.line = k + 1 → ∃ start, table[k]? = some start ∧ start ≤ l.offset ∧
    l.column = l.offset - start + 1 ∧ l.offset = start + l.column - 1 ∧
    (k + 1 = table.length ∨ ∃ next, table[k + 1]? = some next ∧ l.offset < next)
  unplaced : l.line = 0 → l.column = 0

variable {table : LineTable} {offset a b k : Nat}

theorem upTo_eq_take (table : LineTable) (offset : Nat) :
    table.upTo offset = table.take (table.lineAt offset) :=
  List.prefix_iff_eq_take.mp (List.takeWhile_prefix _)

theorem lineAt_eq_countP (h : table.Pairwise (· < ·)) (offset : Nat) :
    table.lineAt offset = table.countP (· ≤ offset) := by
  rw [lineAt, upTo_of_pairwise h, List.countP_eq_length_filter]

/-- The line of an offset has started, and the column counts from its start. -/
theorem exists_start (hline : table.lineAt offset = k + 1) :
    ∃ start, table[k]? = some start ∧ start ≤ offset ∧ table.columnAt offset = offset - start + 1 := by
  have hlt : k < (table.upTo offset).length := by
    rw [lineAt] at hline
    omega
  have hstart : (table.upTo offset)[k]? = some (table.upTo offset)[k] := List.getElem?_eq_getElem hlt
  have hlast : (table.upTo offset).getLast? = (table.upTo offset)[k]? := by
    rw [List.getLast?_eq_getElem?, ← lineAt, hline, Nat.add_sub_cancel]
  refine ⟨(table.upTo offset)[k], ?_, ?_, ?_⟩
  · rw [← hstart, upTo_eq_take, List.getElem?_take_of_lt (by omega)]
  · exact le_of_mem_upTo (List.getElem_mem hlt)
  · rw [columnAt, hlast, hstart]

/-- The line behind that of an offset starts further on, if there is one. -/
theorem exists_next (hline : table.lineAt offset = k) :
    k = table.length ∨ ∃ next, table[k]? = some next ∧ offset < next := by
  subst hline
  induction table with
  | nil => exact .inl rfl
  | cons start table ih =>
    rw [lineAt, upTo, List.takeWhile_cons]
    split
    · rcases ih with hlast | hnext
      · exact .inl (congrArg (· + 1) hlast)
      · exact .inr hnext
    · rename_i hlt
      rw [decide_eq_true_eq, Nat.not_le] at hlt
      exact .inr ⟨start, rfl, hlt⟩

theorem columnAt_of_lineAt_eq_zero (hline : table.lineAt offset = 0) : table.columnAt offset = 0 := by
  rw [columnAt, List.eq_nil_of_length_eq_zero hline]
  rfl

/-- On one line columns grow as offsets do. -/
theorem columnAt_add (hsame : table.lineAt a = table.lineAt b) (hknown : 0 < table.lineAt b) (h : a ≤ b) :
    table.columnAt a + (b - a) = table.columnAt b := by
  obtain ⟨k, hk⟩ := Nat.exists_eq_succ_of_ne_zero (Nat.ne_of_gt hknown)
  obtain ⟨s, hs, hsa, hcolumn⟩ := exists_start (hsame.trans hk)
  obtain ⟨t, ht, -, hcolumn'⟩ := exists_start hk
  obtain rfl : s = t := Option.some.inj (hs.symm.trans ht)
  omega

theorem columnAt_le_of_lineAt_eq (hsame : table.lineAt a = table.lineAt b) (h : a ≤ b) :
    table.columnAt a ≤ table.columnAt b := by
  rcases Nat.eq_zero_or_pos (table.lineAt b) with hnone | hknown
  · rw [columnAt_of_lineAt_eq_zero (hsame.trans hnone)]
    exact Nat.zero_le _
  · rw [← columnAt_add hsame hknown h]
    exact Nat.le_add_right ..

/-- The first column is that of the places at which lines start. -/
theorem columnAt_eq_one_iff (h : table.Pairwise (· < ·)) : table.columnAt offset = 1 ↔ offset ∈ table := by
  constructor
  · intro hone
    cases hline : table.lineAt offset with
    | zero =>
      rw [columnAt_of_lineAt_eq_zero hline] at hone
      cases hone
    | succ k =>
      obtain ⟨start, hstart, hle, hcolumn⟩ := exists_start hline
      obtain rfl : start = offset := by omega
      exact List.mem_of_getElem? hstart
  · intro hmem
    have hupTo : offset ∈ table.upTo offset := by
      rw [upTo_of_pairwise h]
      exact List.mem_filter.mpr ⟨hmem, decide_eq_true (Nat.le_refl offset)⟩
    obtain ⟨front, last, heq⟩ := (List.eq_nil_or_concat _).resolve_left (List.ne_nil_of_mem hupTo)
    rw [List.concat_eq_append] at heq
    have hpairs : (front ++ [last]).Pairwise (· < ·) := heq ▸ h.sublist (List.takeWhile_sublist _)
    have hlast : last ≤ offset := le_of_mem_upTo (heq ▸ List.mem_concat_self)
    rw [heq] at hupTo
    rw [columnAt, heq, List.getLast?_concat]
    rcases List.mem_append.mp hupTo with hfront | hsame
    · have := (List.pairwise_append.mp hpairs).2.2 offset hfront last List.mem_cons_self
      omega
    · obtain rfl := List.mem_singleton.mp hsame
      exact congrArg (· + 1) (Nat.sub_self offset)

end LineTable

namespace Document

variable {doc : Document} {a b : Nat}

theorem places_rawLocation (h : doc.lines.Pairwise (· < ·)) (offset : Nat) :
    doc.lines.Places (doc.rawLocation offset) := by
  refine ⟨LineTable.lineAt_eq_countP h offset, fun k hline => ?_, LineTable.columnAt_of_lineAt_eq_zero⟩
  obtain ⟨start, hstart, hle, hcolumn⟩ := LineTable.exists_start hline
  refine ⟨start, hstart, hle, hcolumn, ?_, LineTable.exists_next hline⟩
  change offset = start + doc.lines.columnAt offset - 1
  omega

theorem place_rawLocation_le (doc : Document) (h : a ≤ b) :
    (doc.rawLocation a).place ≤ (doc.rawLocation b).place := by
  refine Prod.Lex.toLex_le_toLex.mpr ?_
  rcases Nat.lt_or_eq_of_le (doc.lines.lineAt_mono h) with hlt | heq
  · exact .inl hlt
  · exact .inr ⟨heq, LineTable.columnAt_le_of_lineAt_eq heq h⟩

theorem place_rawLocation_lt (h : a < b) (hknown : 0 < (doc.rawLocation b).line) :
    (doc.rawLocation a).place < (doc.rawLocation b).place := by
  refine Prod.Lex.toLex_lt_toLex.mpr ?_
  rcases Nat.lt_or_eq_of_le (doc.lines.lineAt_mono (Nat.le_of_lt h)) with hlt | heq
  · exact .inl hlt
  · have hcolumn := LineTable.columnAt_add heq hknown (Nat.le_of_lt h)
    refine .inr ⟨heq, ?_⟩
    change doc.lines.columnAt a < doc.lines.columnAt b
    omega

/-- After any history the lines are in order, every position has the line and the column that they give it,
and the places of positions are in the order of the positions. A position that is on a line shares its place
with none in front of it. -/
theorem location_places {doc : Document} (hlines : doc.lines = LineTable.fresh) (hbase : 0 < doc.base)
    (edits : List Edit) :
    let after := doc.editAll edits
    after.lines.Pairwise (· < ·) ∧
      (∀ pos, doc.covers pos = true → ∃ l, after.location pos false = .ok l ∧
        l.offset = pos - doc.base ∧ after.lines.Places l) ∧
      ∀ p q, doc.covers p = true → doc.covers q = true → p ≤ q →
        ∃ l m, after.location p false = .ok l ∧ after.location q false = .ok m ∧
          l.place ≤ m.place ∧ (p < q → 0 < m.line → l.place < m.place) := by
  intro after
  have hpairs : after.lines.Pairwise (· < ·) := pairwise_lines_of_fresh hlines edits
  refine ⟨hpairs, fun pos hcovers => ?_, fun p q hp hq hle => ?_⟩
  · exact ⟨_, location_editAll_eq hbase edits hcovers false, rfl, places_rawLocation hpairs _⟩
  · refine ⟨_, _, location_editAll_eq hbase edits hp false, location_editAll_eq hbase edits hq false,
      place_rawLocation_le _ (by omega), fun hlt hknown => place_rawLocation_lt ?_ hknown⟩
    have hstart := (covers_eq_true_iff.mp hp).1
    omega

/-- A table of a text that is longer than the document, a scan, lines that are joined, and a table that starts
behind the first position. -/
theorem location_places_displaced :
    let doc : Document := { name := "a", base := 7, size := 6 }
    let edits : List Edit := [.change (.content [0x0A, 0x0A, 0x3F, 0x0A, 0x3F, 0x0A, 0x0A, 0x3F]),
      .scan [0x0A, 0x0A, 0x3F, 0x0A, 0x3F, 0x0A] {}, .change (.join 2), .change (.table [1, 2, 4]),
      .change (.join 1)]
    let after := doc.editAll edits
    doc.lines = LineTable.fresh ∧ 0 < doc.base ∧ doc.covers 7 = true ∧ doc.covers 12 = true ∧
      after.lines.Pairwise (· < ·) ∧
      (∃ l, after.location 12 false = .ok l ∧ l.offset = 12 - doc.base ∧ after.lines.Places l) ∧
      ∃ l m, after.location 7 false = .ok l ∧ after.location 12 false = .ok m ∧ l.place ≤ m.place ∧
        (7 < 12 → 0 < m.line → l.place < m.place) := by
  intro doc edits after
  obtain ⟨hpairs, hplaces, horder⟩ := @location_places doc rfl (by decide) edits
  exact ⟨rfl, by decide, by decide, by decide, hpairs, hplaces 12 (by decide),
    horder 7 12 (by decide) (by decide) (by decide)⟩

end Document

end SchemaScan
