import SchemaScan.Proofs.Source.LineLocations

/-! # Overrides for file and line

An override for file and line counts columns from its own place on, as if a line started there. So the
columns of its line are those of the text only if a line does start there; on the lines behind they always
are.
-/
namespace SchemaScan

namespace LineTable

variable {content : List UInt8} {offset : Nat}

theorem upTo_ofContent (content : List UInt8) (offset : Nat) :
    (ofContent content).upTo offset = 0 :: (lineStarts content).filter (· ≤ offset) := by
  rw [upTo_of_pairwise (pairwise_ofContent content), ofContent_eq, List.filter_cons]
  exact if_pos (decide_eq_true (Nat.zero_le offset))

/-- Lines start at the beginning of a text and behind its line feeds. -/
theorem mem_ofContent_iff (h : offset < content.length) :
    offset ∈ ofContent content ↔ offset = 0 ∨ content[offset - 1]? = some 0x0A := by
  rw [ofContent_eq, List.mem_cons]
  cases offset with
  | zero => simp
  | succ offset =>
    rw [succ_mem_lineStarts_iff h]
    rfl

end LineTable

namespace Location

variable {name : String} {content : List UInt8} {a b offset : Nat}

/-- A place in a text has the line and the column that the table of the text gives it. -/
theorem inText_eq (name : String) (content : List UInt8) (offset : Nat) :
    inText name content offset = ⟨name, offset, (LineTable.ofContent content).lineAt offset,
      (LineTable.ofContent content).columnAt offset⟩ := by
  let doc : Document := { name, base := 0, size := 0, lines := LineTable.ofContent content }
  exact (@Document.rawLocation_of_upTo doc content offset (LineTable.upTo_ofContent content offset)).symm

theorem line_inText_pos (name : String) (content : List UInt8) (offset : Nat) :
    0 < (inText name content offset).line := Nat.lt_of_lt_of_le Nat.one_pos (Nat.le_add_right ..)

/-- On one line of a text columns grow as offsets do. -/
theorem column_inText_add (hsame : (inText name content b).line = (inText name content a).line)
    (h : a ≤ b) : (inText name content a).column + (b - a) = (inText name content b).column := by
  have hknown := line_inText_pos name content b
  simp only [inText_eq] at hsame hknown ⊢
  exact LineTable.columnAt_add hsame.symm hknown h

theorem column_inText_eq_one_iff (h : offset < content.length) :
    (inText name content offset).column = 1 ↔ offset = 0 ∨ content[offset - 1]? = some 0x0A := by
  rw [inText_eq, ← LineTable.mem_ofContent_iff h]
  exact LineTable.columnAt_eq_one_iff (LineTable.pairwise_ofContent content)

end Location

namespace Override.Adjusts

variable {name : String} {content : List UInt8} {offset : Nat} {a : Override} {adjusted : Location}

/-- On its own line an override with column 1 counts columns as if the line started with it. -/
theorem column_of_line_eq
    (h : a.Adjusts (.inText name content a.offset) (.inText name content offset) adjusted)
    (hcolumn : a.column = 1) (hle : a.offset ≤ offset) (hlimit : offset + 1 ≤ positionLimit)
    (hline : (Location.inText name content offset).line = (Location.inText name content a.offset).line) :
    adjusted.column + (Location.inText name content a.offset).column =
      (Location.inText name content offset).column + 1 := by
  have hoffset : (Location.inText name content offset).offset = offset := rfl
  have hknown := Nat.ne_of_gt (Location.line_inText_pos name content a.offset)
  have hadjusted := h.column hknown (by omega) hline (by omega)
  have hadd := Location.column_inText_add hline hle
  omega

/-- So it leaves a column as it is on the lines behind, and on its own line if this starts with it. -/
theorem column_eq_iff
    (h : a.Adjusts (.inText name content a.offset) (.inText name content offset) adjusted)
    (hcolumn : a.column = 1) (hle : a.offset ≤ offset) (hlimit : offset + 1 ≤ positionLimit) :
    adjusted.column = (Location.inText name content offset).column ↔
      (Location.inText name content offset).line ≠ (Location.inText name content a.offset).line ∨
        (Location.inText name content a.offset).column = 1 := by
  by_cases hline : (Location.inText name content offset).line = (Location.inText name content a.offset).line
  · have hsame := h.column_of_line_eq hcolumn hle hlimit hline
    omega
  · have hknown := Nat.ne_of_gt (Location.line_inText_pos name content a.offset)
    exact iff_of_true (h.further hknown (by omega) hline) (.inl hline)

end Override.Adjusts

namespace Document

variable {doc : Document}

/-- A document without overrides accepts one for file and line inside it. -/
theorem noteLineOverride_of_lt (hplain : doc.overrides = []) {start : Nat} (hstart : start < doc.size)
    (filename : String) (line : Nat) :
    doc.noteLineOverride start filename line =
      { doc with overrides := [⟨start, filename, line, 1⟩] } := by
  rw [noteLineOverride, noteOverride, hplain, if_pos]
  · rfl
  · simpa using hstart

/-- A single override is in force from its place on. -/
theorem locationAt_singleton {o : Override} (hoverrides : doc.overrides = [o]) {offset : Nat}
    (h : o.offset ≤ offset) :
    doc.locationAt offset true = o.apply doc.lines (doc.rawLocation offset) := by
  have hforce : doc.overrideAt? offset = some o := by simp [overrideAt?, hoverrides, h]
  rw [locationAt, hforce]
  rfl

/-- An override for file and line moves the positions from its own one on to this file, and counts their
lines from the given one. On its own line columns are counted from it on, so that they remain as they are
exactly if the line starts with it. -/
theorem location_noteLineOverride {doc : Document} {content : List UInt8}
    (hlines : doc.lines = LineTable.ofContent content) (hsize : content.length = doc.size)
    (hplain : doc.overrides = []) (hbase : 0 < doc.base) (hlimit : doc.base + doc.size ≤ positionLimit)
    {start : Nat} (hstart : start < doc.size) (filename : String) (line : Nat) {pos : Nat}
    (hcovers : doc.covers pos = true) (hbehind : doc.base + start ≤ pos) :
    let after := doc.noteLineOverride start filename line
    let first := Location.inText doc.name content start
    let raw := Location.inText doc.name content (pos - doc.base)
    ∃ adjusted, after.location pos false = .ok raw ∧ after.location pos true = .ok adjusted ∧
      adjusted.filename = filename ∧ first.line ≤ raw.line ∧
      adjusted.line = (if line + (raw.line - first.line) ≤ positionLimit then
        line + (raw.line - first.line) else 0) ∧
      (raw.line = first.line → adjusted.column + first.column = raw.column + 1) ∧
      (adjusted.column = raw.column ↔
        raw.line ≠ first.line ∨ start = 0 ∨ content[start - 1]? = some 0x0A) := by
  intro after first raw
  let a : Override := ⟨start, filename, line, 1⟩
  have hafter : after = { doc with overrides := [a] } := noteLineOverride_of_lt hplain hstart filename line
  have hraw (offset : Nat) : after.rawLocation offset = Location.inText doc.name content offset := by
    rw [rawLocation, hafter, hlines, Location.inText_eq]
  have hlocation := location_eq_of_extent (hafter ▸ rfl : after.extent = doc.extent) hbase hcovers
  have hend := (covers_eq_true_iff.mp hcovers).2
  have hle : start ≤ pos - doc.base := by omega
  have hadjusts := @Override.adjusts_apply a after _ hle
  rw [← locationAt_singleton (congrArg overrides hafter) hle, hraw, hraw] at hadjusts
  have hone : first.column = 1 ↔ start = 0 ∨ content[start - 1]? = some 0x0A :=
    Location.column_inText_eq_one_iff (hsize ▸ hstart)
  refine ⟨_, ?_, hlocation true, hadjusts.filename, hadjusts.ordered, hadjusts.line ?_,
    hadjusts.column_of_line_eq rfl hle (by omega), ?_⟩
  · rw [hlocation false]
    exact congrArg Except.ok (hraw _)
  · exact Nat.ne_of_gt (Location.line_inText_pos ..)
  · rw [← hone]
    exact hadjusts.column_eq_iff rfl hle (by omega)

/-- The override starts within the second line, and the position lies further on in that line. -/
theorem location_noteLineOverride_within :
    let content : List UInt8 := [0x61, 0x0A, 0x62, 0x63, 0x0A, 0x64]
    let doc : Document := withLinesOf { name := "a", base := 7, size := 6 } content
    let after := doc.noteLineOverride 3 "b" 10
    let first := Location.inText doc.name content 3
    let raw := Location.inText doc.name content (11 - doc.base)
    doc.lines = LineTable.ofContent content ∧ content.length = doc.size ∧ doc.overrides = [] ∧
      0 < doc.base ∧ doc.base + doc.size ≤ positionLimit ∧ 3 < doc.size ∧ doc.covers 11 = true ∧
      doc.base + 3 ≤ 11 ∧
      ∃ adjusted, after.location 11 false = .ok raw ∧ after.location 11 true = .ok adjusted ∧
        adjusted.filename = "b" ∧ first.line ≤ raw.line ∧
        adjusted.line = (if 10 + (raw.line - first.line) ≤ positionLimit then
          10 + (raw.line - first.line) else 0) ∧
        (raw.line = first.line → adjusted.column + first.column = raw.column + 1) ∧
        (adjusted.column = raw.column ↔
          raw.line ≠ first.line ∨ 3 = 0 ∨ content[3 - 1]? = some 0x0A) := by
  intro content doc after first raw
  exact ⟨rfl, rfl, rfl, by decide, by decide, by decide, by decide, by decide,
    @location_noteLineOverride doc content rfl rfl rfl (by decide) (by decide) 3 (by decide) "b" 10 11
      (by decide) (by decide)⟩

/-- Within a line columns are counted anew. -/
theorem location_recounts :
    let content : List UInt8 := [0x61, 0x0A, 0x62, 0x63, 0x64]
    let doc : Document := withLinesOf { name := "a", base := 1, size := 5 } content
    let after := doc.noteLineOverride 3 "f" 10
    content.length = doc.size ∧ doc.overrides = [] ∧ after.overrides.length = 1 ∧ doc.covers 5 = true ∧
      doc.base + 3 ≤ 5 ∧ ∃ raw adjusted, after.location 5 false = .ok raw ∧
        after.location 5 true = .ok adjusted ∧ adjusted.filename = "f" ∧ adjusted.line = 10 ∧
        raw.column = 3 ∧ adjusted.column = 2 ∧ adjusted.column ≠ raw.column := by
  refine ⟨rfl, rfl, rfl, by decide, by decide, _, _, rfl, rfl, rfl, rfl, rfl, rfl, by decide⟩

end Document

end SchemaScan
