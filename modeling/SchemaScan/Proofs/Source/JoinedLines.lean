import SchemaScan.Proofs.Source.LineLocations

/-! # Joined lines

Joining a line with the one after it takes the start of that line out of the table. The positions behind
lose one line, those of the line that is joined count their columns from the start of the line in front, and
all other columns and lines stay as they are.
-/
namespace SchemaScan

/-- How a location changes when the given line, which starts at `start`, is joined with the one after it. -/
structure Location.Joins (line start : Nat) (before after : Location) : Prop where
  filename : after.filename = before.filename
  offset : after.offset = before.offset
  front : before.line ≤ line → after.line = before.line
  behind : line < before.line → after.line = before.line - 1
  other : before.line ≠ line + 1 → after.column = before.column
  joined : before.line = line + 1 → start ≤ before.offset ∧ after.column = before.offset - start + 1

namespace LineTable

variable {front back : LineTable} {removed offset : Nat}

/-- In front of the start that is taken out nothing changes. -/
theorem upTo_of_lt_removed (h : (front ++ removed :: back).Pairwise (· < ·)) (hlt : offset < removed) :
    LineTable.upTo (front ++ removed :: back) offset = LineTable.upTo front offset ∧
      LineTable.upTo (front ++ back) offset = LineTable.upTo front offset := by
  obtain ⟨hfront, hback, -⟩ := List.pairwise_append.mp h
  have hbehind : ∀ s ∈ removed :: back, ¬ s ≤ offset := fun s hs => by
    rcases List.mem_cons.mp hs with rfl | hs
    · omega
    · have := (List.pairwise_cons.mp hback).1 s hs
      omega
  have hrest {rest : LineTable} (hsub : rest.Sublist (removed :: back)) :
      LineTable.upTo (front ++ rest) offset = LineTable.upTo front offset := by
    have hnone : rest.filter (· ≤ offset) = [] :=
      List.filter_eq_nil_iff.mpr fun s hs => by simpa using hbehind s (hsub.subset hs)
    rw [upTo_of_pairwise (h.sublist (hsub.append_left front)), upTo_of_pairwise hfront,
      List.filter_append, hnone, List.append_nil]
  exact ⟨hrest (List.Sublist.refl _), hrest (List.sublist_cons_self removed back)⟩

/-- From the start that is taken out on all lines in front of it have started. -/
theorem upTo_of_removed_le (h : (front ++ removed :: back).Pairwise (· < ·)) (hle : removed ≤ offset) :
    LineTable.upTo (front ++ removed :: back) offset = front ++ removed :: LineTable.upTo back offset ∧
      LineTable.upTo (front ++ back) offset = front ++ LineTable.upTo back offset := by
  have hfront : ∀ s ∈ front, decide (s ≤ offset) = true := fun s hs => by
    have := (List.pairwise_append.mp h).2.2 s hs removed List.mem_cons_self
    exact decide_eq_true (by omega)
  constructor
  · rw [upTo, List.takeWhile_append_of_pos hfront, List.takeWhile_cons, if_pos (decide_eq_true hle), upTo]
  · rw [upTo, List.takeWhile_append_of_pos hfront, upTo]

end LineTable

namespace Document

variable {front back : LineTable} {removed start : Nat}

theorem joins_rawLocation (doc : Document) (h : (front ++ removed :: back).Pairwise (· < ·))
    (hstart : front.getLast? = some start) (offset : Nat) :
    Location.Joins front.length start
      (rawLocation { doc with lines := front ++ removed :: back } offset)
      (rawLocation { doc with lines := front ++ back } offset) := by
  simp only [rawLocation, LineTable.lineAt, LineTable.columnAt]
  rcases Nat.lt_or_ge offset removed with hlt | hle
  · obtain ⟨hwhole, hrest⟩ := LineTable.upTo_of_lt_removed h hlt
    have hline : (front.upTo offset).length ≤ front.length := (List.takeWhile_prefix _).length_le
    rw [hwhole, hrest]
    refine ⟨rfl, rfl, fun _ => rfl, fun hbehind => ?_, fun _ => rfl, fun hbehind => ?_⟩
    · exact absurd hline (Nat.not_le.mpr hbehind)
    · exact absurd hline (Nat.not_le.mpr (Nat.lt_of_succ_le (Nat.le_of_eq hbehind.symm)))
  · obtain ⟨hwhole, hrest⟩ := LineTable.upTo_of_removed_le h hle
    have hstarted : start ≤ offset := by
      have := (List.pairwise_append.mp h).2.2 start (List.mem_of_getLast? hstart) removed
        List.mem_cons_self
      omega
    rw [hwhole, hrest]
    cases back.upTo offset with
    | nil =>
      -- the line whose start is taken out is the line of the offset
      refine ⟨rfl, rfl, fun hfront => ?_, fun _ => ?_, fun hother => ?_, fun _ => ⟨hstarted, ?_⟩⟩
      · simp only [List.length_append, List.length_cons] at hfront
        omega
      · simp
      · simp at hother
      · simp [hstart]
    | cons next rest =>
      refine ⟨rfl, rfl, fun hfront => ?_, fun _ => ?_, fun _ => ?_, fun hjoined => ?_⟩
      · simp only [List.length_append, List.length_cons] at hfront
        omega
      · simp
      · simp
      · simp at hjoined

/-- Only a line that has one after it is joined, and then that line's start is taken out. -/
theorem joinLine_eq_ok_iff {doc after : Document} {line : Nat} : doc.joinLine line = .ok after ↔
    1 ≤ line ∧ line < doc.lines.length ∧ after = { doc with lines := List.eraseIdx doc.lines line } := by
  rw [joinLine]
  split
  · simp only [reduceCtorEq, false_iff]
    omega
  · split
    · rw [Except.ok.injEq]
      constructor
      · rintro rfl
        exact ⟨by omega, by omega, rfl⟩
      · rintro ⟨-, -, rfl⟩
        rfl
    · simp only [reduceCtorEq, false_iff]
      omega

theorem joins_of_joinLine {doc after : Document} {line : Nat} (h : doc.lines.Pairwise (· < ·))
    (hjoin : doc.joinLine line = .ok after) : ∃ start, doc.lines[line - 1]? = some start ∧
      ∀ offset, Location.Joins line start (doc.rawLocation offset) (after.rawLocation offset) := by
  obtain ⟨hpositive, hlt, rfl⟩ := joinLine_eq_ok_iff.mp hjoin
  have hlength : (doc.lines.take line).length = line := List.length_take_of_le (Nat.le_of_lt hlt)
  have hsplit : doc.lines = doc.lines.take line ++ doc.lines[line] :: doc.lines.drop (line + 1) := by
    rw [List.getElem_cons_drop, List.take_append_drop]
  have hstart : (doc.lines.take line).getLast? = doc.lines[line - 1]? := by
    rw [List.getLast?_take, if_neg (by omega), List.getElem?_eq_getElem (by omega), Option.some_or]
  rw [List.getElem?_eq_getElem (by omega)] at hstart ⊢
  refine ⟨_, rfl, fun offset => ?_⟩
  have hjoins := doc.joins_rawLocation (hsplit ▸ h) hstart offset
  rw [← hsplit, hlength, ← List.eraseIdx_eq_take_drop_succ] at hjoins
  exact hjoins

theorem joinLine_eq_error {doc : Document} {line : Nat} (h : line = 0 ∨ doc.lines.length ≤ line) :
    doc.joinLine line = .error (if line = 0 then .lineZero else .noLineAfter) := by
  rw [joinLine]
  split
  · rfl
  · rw [if_neg (Nat.not_lt.mpr (h.resolve_left ‹_›))]

theorem editAll_concat (doc : Document) (edits : List Edit) (e : Edit) :
    doc.editAll (edits ++ [e]) = (doc.editAll edits).edit e := List.foldl_append

/-- After any history a line that has one after it is joined with it. Then there is one line less, and the
positions of the document keep their places but for those behind the line. If no line comes after it, the
document stays as it is. -/
theorem location_joinLine {doc : Document} (hlines : doc.lines = LineTable.fresh) (hbase : 0 < doc.base)
    (edits : List Edit) (line : Nat) :
    let before := doc.editAll edits
    let after := doc.editAll (edits ++ [Edit.change (.join line)])
    (1 ≤ line ∧ line < before.lines.length → before.joinLine line = .ok after ∧
      after.lines.length + 1 = before.lines.length ∧ ∃ start, before.lines[line - 1]? = some start ∧
        ∀ pos, doc.covers pos = true → ∃ l m, before.location pos false = .ok l ∧
          after.location pos false = .ok m ∧ l.offset = pos - doc.base ∧ l.Joins line start m) ∧
      (line = 0 ∨ before.lines.length ≤ line →
        before.joinLine line = .error (if line = 0 then .lineZero else .noLineAfter) ∧ after = before) := by
  intro before after
  have hpairs : before.lines.Pairwise (· < ·) := pairwise_lines_of_fresh hlines edits
  have hafter : after = (before.joinLine line).toOption.getD before := doc.editAll_concat edits _
  constructor
  · rintro ⟨hpositive, hlt⟩
    have hjoin := joinLine_eq_ok_iff.mpr ⟨hpositive, hlt, rfl⟩
    have heq : after = { before with lines := List.eraseIdx before.lines line } := by
      rw [hafter, hjoin]
      rfl
    rw [← heq] at hjoin
    obtain ⟨start, hstart, hjoins⟩ := joins_of_joinLine hpairs hjoin
    refine ⟨hjoin, ?_, start, hstart, fun pos hcovers => ?_⟩
    · rw [heq]
      exact List.length_eraseIdx_add_one hlt
    · exact ⟨_, _, location_editAll_eq hbase edits hcovers false,
        location_editAll_eq hbase (edits ++ [Edit.change (.join line)]) hcovers false, rfl, hjoins _⟩
  · intro hnone
    have hjoin := joinLine_eq_error hnone
    refine ⟨hjoin, ?_⟩
    rw [hafter, hjoin]
    rfl

/-- The second of four lines is joined with the third, and a position of the third one moves into it. -/
theorem location_joinLine_third :
    let doc : Document := { name := "a", base := 7, size := 6 }
    let edits : List Edit := [.change (.content [0x0A, 0x3F, 0x0A, 0x3F, 0x3F, 0x3F]), .change (.line 5),
      .change (.join 4)]
    let before := doc.editAll edits
    let after := doc.editAll (edits ++ [Edit.change (.join 2)])
    doc.lines = LineTable.fresh ∧ 0 < doc.base ∧ (1 ≤ 2 ∧ 2 < before.lines.length) ∧
      doc.covers 11 = true ∧ before.joinLine 2 = .ok after ∧
      after.lines.length + 1 = before.lines.length ∧ ∃ start, before.lines[2 - 1]? = some start ∧
        ∃ l m, before.location 11 false = .ok l ∧ after.location 11 false = .ok m ∧
          l.offset = 11 - doc.base ∧ l.Joins 2 start m := by
  intro doc edits before after
  have hline : 1 ≤ 2 ∧ 2 < before.lines.length := by decide
  obtain ⟨hjoin, hlength, start, hstart, hplaces⟩ :=
    (@location_joinLine doc rfl (by decide) edits 2).1 hline
  exact ⟨rfl, by decide, hline, by decide, hjoin, hlength, start, hstart, hplaces 11 (by decide)⟩

end Document

end SchemaScan
