import Mathlib.Data.List.Perm.Subperm
import SchemaScan.Proofs.Source.Edits

/-! # Overrides

Of the overrides that are noted in the course of a history those are accepted that lie behind the one
accepted before them and inside the document. The last of them at or before an offset is in force there, and
it moves what the lines of the document say about the offset, whether these lines were noted before it or
after it.
-/
namespace SchemaScan

namespace Override

/-- The overrides that are accepted: each lies behind the previous one and inside a document of this size. -/
def accepted (size : Nat) (previous : Option Nat) : List Override → List Override
  | [] => []
  | o :: os =>
    if previous.all (· < o.offset) && o.offset < size then o :: accepted size (some o.offset) os
    else accepted size previous os

/-- The override in force at an offset, if there is one. -/
def inForce? (accepted : List Override) (offset : Nat) : Option Override :=
  (accepted.filter (·.offset ≤ offset)).getLast?

variable {size : Nat} {previous : Option Nat} {os : List Override} {a : Override}

theorem of_mem_accepted (h : a ∈ accepted size previous os) :
    a ∈ os ∧ a.offset < size ∧ ∀ p ∈ previous, p < a.offset := by
  induction os generalizing previous with
  | nil => cases h
  | cons o os ih =>
    rw [accepted] at h
    split at h
    · rename_i haccept
      obtain ⟨hprevious, hsize⟩ := Bool.and_eq_true_iff.mp haccept
      have hbehind : ∀ p ∈ previous, p < o.offset := fun p hp => by
        rw [Option.mem_def.mp hp] at hprevious
        exact of_decide_eq_true hprevious
      rcases List.mem_cons.mp h with rfl | h
      · exact ⟨List.mem_cons_self, of_decide_eq_true hsize, hbehind⟩
      · obtain ⟨hmem, hin, hlt⟩ := ih h
        exact ⟨List.mem_cons_of_mem o hmem, hin, fun p hp => Nat.lt_trans (hbehind p hp) (hlt _ rfl)⟩
    · obtain ⟨hmem, hin, hbehind⟩ := ih h
      exact ⟨List.mem_cons_of_mem o hmem, hin, hbehind⟩

theorem pairwise_accepted (size : Nat) (previous : Option Nat) (os : List Override) :
    (accepted size previous os).Pairwise (·.offset < ·.offset) := by
  induction os generalizing previous with
  | nil => exact .nil
  | cons o os ih =>
    rw [accepted]
    split
    · exact .cons (fun a ha => (of_mem_accepted ha).2.2 _ rfl) (ih _)
    · exact ih _

theorem of_inForce? {accepted : List Override} {offset : Nat} (h : inForce? accepted offset = some a) :
    a ∈ accepted ∧ a.offset ≤ offset := by
  obtain ⟨hmem, hle⟩ := List.mem_filter.mp (List.mem_of_getLast? h)
  exact ⟨hmem, of_decide_eq_true hle⟩

/-- How an override moves a location. The lines of the document itself have the location at `raw`, and the
place from which the override holds at `first`. -/
structure Adjusts (a : Override) (first raw adjusted : Location) : Prop where
  filename : adjusted.filename = a.filename
  offset : adjusted.offset = raw.offset
  ordered : first.line ≤ raw.line
  /-- The override holds from a place that is on no line, so that there is no line to count from. -/
  unplaced : first.line = 0 → adjusted.line = raw.line ∧ adjusted.column = raw.column
  line : first.line ≠ 0 → adjusted.line =
    if a.line + (raw.line - first.line) ≤ positionLimit then a.line + (raw.line - first.line) else 0
  hidden : first.line ≠ 0 → a.column = 0 → adjusted.column = 0
  column : first.line ≠ 0 → a.column ≠ 0 → raw.line = first.line →
    a.column + (raw.offset - a.offset) ≤ positionLimit →
    adjusted.column = a.column + (raw.offset - a.offset)
  further : first.line ≠ 0 → a.column ≠ 0 → raw.line ≠ first.line → adjusted.column = raw.column

end Override

namespace LineTable

/-- An offset further on is on the same line or a later one. -/
theorem lineAt_mono (table : LineTable) {a b : Nat} (h : a ≤ b) :
    table.lineAt a ≤ table.lineAt b := by
  have hprefix : table.upTo a <+: table.upTo b := by
    induction table with
    | nil => exact List.prefix_rfl
    | cons start table ih =>
      rw [upTo, upTo, List.takeWhile_cons, List.takeWhile_cons]
      split
      · rename_i hle
        rw [if_pos (by simp only [decide_eq_true_eq] at hle ⊢; omega)]
        exact List.cons_prefix_cons.mpr ⟨rfl, ih⟩
      · exact List.nil_prefix
  exact hprefix.length_le

theorem le_of_mem_upTo {table : LineTable} {offset start : Nat} (h : start ∈ table.upTo offset) :
    start ≤ offset :=
  of_decide_eq_true (List.all_eq_true.mp List.all_takeWhile start h)

end LineTable

namespace Override

variable {a : Override} {doc : Document} {offset : Nat}

/-- On the line from which the override holds, columns count on from its own, and wrap around. -/
theorem column_apply (hplaced : doc.lines.lineAt a.offset ≠ 0) (hcolumn : a.column ≠ 0)
    (hline : doc.lines.lineAt offset = doc.lines.lineAt a.offset) :
    (a.apply doc.lines (doc.rawLocation offset)).column =
      (a.column + (offset - a.offset)) % (positionLimit + 1) := by
  rw [apply]
  simp only [hplaced, if_false, hcolumn]
  exact if_pos hline

theorem adjusts_apply (h : a.offset ≤ offset) :
    a.Adjusts (doc.rawLocation a.offset) (doc.rawLocation offset)
      (a.apply doc.lines (doc.rawLocation offset)) := by
  have hordered := doc.lines.lineAt_mono h
  by_cases hfirst : doc.lines.lineAt a.offset = 0
  · have happly : a.apply doc.lines (doc.rawLocation offset) =
        { doc.rawLocation offset with filename := a.filename } := if_pos hfirst
    rw [happly]
    refine ⟨rfl, rfl, hordered, fun _ => ⟨rfl, rfl⟩, ?_, ?_, ?_, ?_⟩
    all_goals exact fun hplaced => absurd hfirst hplaced
  · have hcolumn := @column_apply a doc offset hfirst
    rw [apply] at hcolumn ⊢
    simp only [hfirst, if_false] at hcolumn ⊢
    refine ⟨rfl, rfl, hordered, fun hunplaced => absurd hunplaced hfirst, fun _ => rfl, ?_, ?_, ?_⟩
    · intro _ hunknown
      exact if_pos hunknown
    · intro _ hknown hline hlimit
      exact (hcolumn hknown hline).trans (Nat.mod_eq_of_lt (Nat.lt_succ_of_le hlimit))
    · intro _ hknown hline
      exact (if_neg hknown).trans (if_neg hline)

end Override

/-- The override that the edit notes; one for file and line only has column 1. -/
def Edit.override? : Edit → Option Override
  | change (.override o) => some o
  | _ => none

namespace Document

variable {doc : Document} {e : Edit}

/-! ## What an edit does -/

/-- An edit that notes no override makes other lines out of the lines of the document, and keeps them in
order. -/
theorem exists_lines_edit (he : e.override? = none) (size : Nat) :
    ∃ f : LineTable → LineTable, (∀ table, table.Pairwise (· < ·) → (f table).Pairwise (· < ·)) ∧
      ∀ doc : Document, doc.size = size → doc.edit e = { doc with lines := f doc.lines } := by
  cases e with
  | change c =>
    cases c with
    | line start => exact ⟨(·.add size start), fun _ h => LineTable.pairwise_add h .., by rintro doc rfl; rfl⟩
    | join line =>
      refine ⟨fun table => if line = 0 then table else List.eraseIdx table line, ?_, ?_⟩
      · intro table h
        simp only
        split
        · exact h
        · exact h.eraseIdx line
      · intro doc _
        simp only [edit, change, joinLine]
        split
        · rfl
        · split
          · rfl
          · rename_i hlast
            rw [List.eraseIdx_of_length_le (Nat.not_lt.mp hlast)]
            rfl
    | table starts =>
      refine ⟨fun table => if LineTable.isTableFor size starts then starts else table, ?_, ?_⟩
      · intro table h
        simp only
        split
        · rename_i haccepted
          exact (LineTable.isOrdered_of_isTableFor haccepted).increasing
        · exact h
      · rintro doc rfl
        simp only [edit, change, withLines?]
        split <;> rfl
    | content bytes =>
      exact ⟨fun _ => .ofContent bytes, fun _ _ => LineTable.pairwise_ofContent bytes, fun _ _ => rfl⟩
    | override o => cases he
  | scan source mode =>
    by_cases hfit : source.length = size
    · refine ⟨(·.addAll size (LineTable.startsFrom 0 (source.take (Trace.ofSource mode source).seen))),
        fun _ h => LineTable.pairwise_addAll h .., ?_⟩
      rintro doc rfl
      exact edit_scan hfit mode
    · refine ⟨id, fun _ h => h, ?_⟩
      rintro doc rfl
      simp only [edit, scan, if_neg hfit, id]
  | beginning source seen =>
    exact ⟨(·.addAll size _), fun _ h => LineTable.pairwise_addAll h .., by rintro doc rfl; rfl⟩

theorem edit_of_override? {o : Override} (he : e.override? = some o) : doc.edit e = doc.noteOverride o := by
  cases e with
  | change c =>
    cases c with
    | override o' =>
      cases he
      rfl
    | _ => cases he
  | _ => cases he

/-- An override that is noted is accepted or leaves the document as it is. -/
theorem overrides_edit (doc : Document) (e : Edit) : (doc.edit e).overrides =
    doc.overrides ++ Override.accepted doc.size (doc.overrides.getLast?.map (·.offset)) e.override?.toList := by
  cases he : e.override? with
  | none =>
    obtain ⟨f, -, hf⟩ := exists_lines_edit he doc.size
    rw [hf doc rfl]
    exact (List.append_nil _).symm
  | some o =>
    have htest : (doc.overrides.getLast?.map (·.offset)).all (· < o.offset) =
        doc.overrides.getLast?.all (·.offset < o.offset) := Option.all_map
    rw [edit_of_override? he, noteOverride, Option.toList_some, Override.accepted, htest]
    split
    · rfl
    · exact (List.append_nil _).symm

/-- The overrides after a history are those that have been accepted. -/
theorem overrides_editAll (doc : Document) (edits : List Edit) : (doc.editAll edits).overrides =
    doc.overrides ++ Override.accepted doc.size (doc.overrides.getLast?.map (·.offset))
      (edits.filterMap Edit.override?) := by
  induction edits generalizing doc with
  | nil => exact (List.append_nil _).symm
  | cons e edits ih =>
    rw [editAll, List.foldl_cons, ← editAll, ih, overrides_edit, size_edit, List.filterMap_cons]
    cases e.override? with
    | none => simp [Override.accepted]
    | some o =>
      simp only [Option.toList_some, Override.accepted]
      split
      · simp
      · simp

theorem pairwise_lines_edit (h : doc.lines.Pairwise (· < ·)) (e : Edit) :
    (doc.edit e).lines.Pairwise (· < ·) := by
  cases he : e.override? with
  | none =>
    obtain ⟨f, hpairs, hf⟩ := exists_lines_edit he doc.size
    rw [hf doc rfl]
    exact hpairs _ h
  | some o =>
    rw [edit_of_override? he, noteOverride]
    split <;> exact h

/-- The lines are in order after any history. -/
theorem pairwise_lines_editAll (h : doc.lines.Pairwise (· < ·)) (edits : List Edit) :
    (doc.editAll edits).lines.Pairwise (· < ·) := by
  induction edits generalizing doc with
  | nil => exact h
  | cons e edits ih => exact ih (pairwise_lines_edit h e)

theorem pairwise_lines_of_fresh (hlines : doc.lines = LineTable.fresh) (edits : List Edit) :
    (doc.editAll edits).lines.Pairwise (· < ·) :=
  pairwise_lines_editAll (hlines ▸ List.pairwise_singleton ..) edits

/-- The document without its overrides. -/
def plain (doc : Document) : Document := { doc with overrides := [] }

theorem plain_edit (doc : Document) (e : Edit) :
    (doc.edit e).plain = if e.override?.isNone then doc.plain.edit e else doc.plain := by
  cases he : e.override? with
  | none =>
    obtain ⟨f, -, hf⟩ := exists_lines_edit he doc.size
    rw [hf doc rfl, hf doc.plain rfl]
    rfl
  | some o =>
    rw [edit_of_override? he, noteOverride]
    split <;> rfl

/-- Overrides change nothing but the overrides. -/
theorem plain_editAll (doc : Document) (edits : List Edit) :
    (doc.editAll edits).plain = doc.plain.editAll (edits.filter (·.override?.isNone)) := by
  induction edits generalizing doc with
  | nil => rfl
  | cons e edits ih =>
    rw [editAll, List.foldl_cons, ← editAll, ih, plain_edit, List.filter_cons]
    split
    · rfl
    · rfl

/-! ## Locations -/

theorem overrideAt?_editAll (h : doc.IsFresh) (edits : List Edit) (offset : Nat) :
    (doc.editAll edits).overrideAt? offset =
      Override.inForce? (Override.accepted doc.size none (edits.filterMap Edit.override?)) offset := by
  have hoverrides := doc.overrides_editAll edits
  rw [h.overrides, List.nil_append] at hoverrides
  rw [overrideAt?, hoverrides, takeWhile_of_pairwise (Override.pairwise_accepted ..)]
  rfl

theorem location_editAll_eq (hbase : 0 < doc.base) (edits : List Edit) {pos : Nat}
    (hcovers : doc.covers pos = true) (adjusted : Bool) : (doc.editAll edits).location pos adjusted =
      .ok ((doc.editAll edits).locationAt (pos - doc.base) adjusted) :=
  location_eq_of_extent (doc.extent_editAll edits) hbase hcovers adjusted

/-- An override in force was accepted, so that the place from which it holds has a location too. -/
theorem location_of_inForce? (hbase : 0 < doc.base) (edits : List Edit) {offset : Nat} {a : Override}
    (ha : Override.inForce? (Override.accepted doc.size none (edits.filterMap Edit.override?)) offset =
      some a) : (doc.editAll edits).location (doc.base + a.offset) false =
        .ok ((doc.editAll edits).rawLocation a.offset) ∧ a.offset ≤ offset := by
  obtain ⟨hmem, hle⟩ := Override.of_inForce? ha
  have hin := (Override.of_mem_accepted hmem).2.1
  have hcovers : doc.covers (doc.base + a.offset) = true := by
    rw [covers_eq_true_iff]
    omega
  refine ⟨?_, hle⟩
  rw [location_editAll_eq hbase edits hcovers, Nat.add_sub_cancel_left]
  rfl

/-- The override in force at an offset moves the location that the lines of the document give it; where none
is in force the location stays as it is. Overrides change neither offsets nor what the lines say. -/
theorem location_editAll (h : doc.IsFresh) (hbase : 0 < doc.base) (edits : List Edit) {pos : Nat}
    (hcovers : doc.covers pos = true) :
    let after := doc.editAll edits
    let accepted := Override.accepted doc.size none (edits.filterMap Edit.override?)
    ∃ raw adjusted, after.location pos false = .ok raw ∧ after.location pos true = .ok adjusted ∧
      raw.offset = pos - doc.base ∧
      (doc.editAll (edits.filter (·.override?.isNone))).location pos false = .ok raw ∧
      match Override.inForce? accepted (pos - doc.base) with
      | none => adjusted = raw
      | some a => ∃ first, after.location (doc.base + a.offset) false = .ok first ∧
        a.Adjusts first raw adjusted := by
  intro after accepted
  have hlocation := location_editAll_eq hbase edits hcovers
  refine ⟨_, _, hlocation false, hlocation true, rfl, ?_, ?_⟩
  · have hplain : doc.plain = doc := by rw [plain, ← h.overrides]
    have hsame := doc.plain_editAll edits
    rw [hplain] at hsame
    rw [← hsame]
    exact hlocation false
  · rw [locationAt, overrideAt?_editAll h]
    cases ha : Override.inForce? accepted (pos - doc.base) with
    | none => rfl
    | some a =>
      obtain ⟨hfirst, hle⟩ := location_of_inForce? hbase edits ha
      exact ⟨_, hfirst, Override.adjusts_apply hle⟩

/-- An override that is noted while the lines are not known yet, one that is refused, and a line that is
read afterwards. -/
theorem location_editAll_later :
    let doc : Document := { name := "a", base := 7, size := 6 }
    let edits : List Edit := [.change (.override ⟨2, "b", 10, 4⟩), .change (.override ⟨2, "c", 1, 1⟩),
      .change (.line 4)]
    let after := doc.editAll edits
    let accepted := Override.accepted doc.size none (edits.filterMap Edit.override?)
    doc.IsFresh ∧ 0 < doc.base ∧ doc.covers 12 = true ∧
      ∃ raw adjusted, after.location 12 false = .ok raw ∧ after.location 12 true = .ok adjusted ∧
        raw.offset = 12 - doc.base ∧
        (doc.editAll (edits.filter (·.override?.isNone))).location 12 false = .ok raw ∧
        match Override.inForce? accepted (12 - doc.base) with
        | none => adjusted = raw
        | some a => ∃ first, after.location (doc.base + a.offset) false = .ok first ∧
          a.Adjusts first raw adjusted := by
  intro doc edits after accepted
  have hfresh : doc.IsFresh := ⟨rfl, rfl⟩
  exact ⟨hfresh, by decide, by decide, location_editAll hfresh (by decide) edits (by decide)⟩

/-! ## Limits -/

end Document

end SchemaScan
