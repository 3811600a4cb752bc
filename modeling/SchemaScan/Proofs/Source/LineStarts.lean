import Mathlib.Data.List.Basic
import SchemaScan.Scan.Trace

/-! # Line starts

A document that has been read up to some place knows the lines of its source that start there or before,
behind those that it had known. Noting a line again changes nothing, and a document of which nothing had
been noted tells the line and the column of every place that has been read.
-/
namespace SchemaScan

/-- The offsets behind the line feeds of a source, in increasing order. A line feed at the very end starts
no line. -/
def lineStarts (source : List UInt8) : List Nat :=
  (source.idxsOf 0x0A 1).filter (· < source.length)

/-- The location of an offset in a text. Lines are counted up to the offset, and columns from the last of
their starts. -/
def Location.inText (name : String) (source : List UInt8) (offset : Nat) : Location where
  filename := name
  offset := offset
  line := 1 + (lineStarts source).countP (· ≤ offset)
  column := offset - ((lineStarts source).filter (· ≤ offset)).getLastD 0 + 1

theorem mem_idxsOf_lineFeed {source : List UInt8} {start : Nat} :
    start + 1 ∈ source.idxsOf 0x0A 1 ↔ source[start]? = some 0x0A := by
  rw [List.mem_idxsOf_iff_getElem_sub_pos, List.getElem?_eq_some_iff]
  simp

theorem succ_mem_lineStarts_iff {source : List UInt8} {offset : Nat} (h : offset + 1 < source.length) :
    offset + 1 ∈ lineStarts source ↔ source[offset]? = some 0x0A := by
  rw [lineStarts, List.mem_filter, mem_idxsOf_lineFeed, decide_eq_true h]
  exact and_iff_left rfl

/-- In a list that is in order the entries up to a bound come first. -/
theorem takeWhile_of_pairwise {α : Type} {key : α → Nat} {l : List α} (h : l.Pairwise (key · < key ·))
    (bound : Nat) : l.takeWhile (key · ≤ bound) = l.filter (key · ≤ bound) := by
  induction l with
  | nil => rfl
  | cons a l ih =>
    obtain ⟨ha, hl⟩ := List.pairwise_cons.mp h
    rw [List.takeWhile_cons, List.filter_cons, ← ih hl]
    split
    · rfl
    · rename_i hlt
      rw [decide_eq_true_eq, Nat.not_le] at hlt
      rw [ih hl, eq_comm, List.filter_eq_nil_iff]
      intro b hb
      have hab := ha b hb
      rw [decide_eq_true_eq]
      omega

namespace LineTable

variable {size start : Nat} {table starts : LineTable}

theorem startsFrom_eq_idxsOf (offset : Nat) (source : List UInt8) :
    startsFrom offset source = source.idxsOf 0x0A (offset + 1) := by
  induction source generalizing offset with
  | nil => rfl
  | cons b source ih =>
    rw [startsFrom, List.idxsOf_cons]
    simp only [beq_iff_eq, ih]

theorem ofContent_eq (source : List UInt8) : ofContent source = 0 :: lineStarts source := by
  rw [ofContent, startsFrom_eq_idxsOf, lineStarts]

/-- In front of a place start the lines of what lies before it. -/
theorem startsFrom_take (source : List UInt8) (seen : Nat) :
    startsFrom 0 (source.take seen) = (source.idxsOf 0x0A 1).filter (· ≤ seen) := by
  have hbefore : ∀ s ∈ (source.take seen).idxsOf 0x0A 1, s ≤ seen := by
    intro s hs
    have hlt := List.lt_add_of_mem_idxsOf s hs
    have hlen := List.length_take_le seen source
    omega
  have hbehind : ∀ s ∈ (source.drop seen).idxsOf 0x0A (1 + (source.take seen).length), ¬s ≤ seen := by
    intro s hs
    have hge := List.ge_of_mem_idxsOf s hs
    have hlt := List.lt_add_of_mem_idxsOf s hs
    rw [List.length_take] at hge hlt
    rw [List.length_drop] at hlt
    omega
  conv =>
    rhs
    rw [← List.take_append_drop seen source, List.idxsOf_append, List.filter_append,
      List.filter_eq_self.mpr (by simpa using hbefore), List.filter_eq_nil_iff.mpr (by simpa using hbehind),
      List.append_nil]
  exact startsFrom_eq_idxsOf 0 _

/-! ## Noting lines -/

theorem addAll_cons (size : Nat) (table : LineTable) (start : Nat) (starts : List Nat) :
    table.addAll size (start :: starts) = (table.add size start).addAll size starts := rfl

theorem addAll_append (size : Nat) (table : LineTable) (starts more : List Nat) :
    table.addAll size (starts ++ more) = (table.addAll size starts).addAll size more :=
  List.foldl_append

theorem follows_of_lt {other : Nat} (h : table.getLast?.all (· < other) = true) (hlt : other < start) :
    table.getLast?.all (· < start) = true := by
  cases hlast : table.getLast? with
  | none => rfl
  | some last =>
    rw [hlast] at h
    simp only [Option.all_some, decide_eq_true_eq] at h ⊢
    exact Nat.lt_trans h hlt

/-- Lines that come in their order are appended from the last known one on. -/
theorem addAll_of_pairwise (h : starts.Pairwise (· < ·)) : table.addAll size starts =
    table ++ starts.filter fun s => table.getLast?.all (· < s) && s < size := by
  induction starts generalizing table with
  | nil => exact (List.append_nil table).symm
  | cons start starts ih =>
    obtain ⟨hstart, hstarts⟩ := List.pairwise_cons.mp h
    rw [addAll_cons, ih hstarts, add, List.filter_cons]
    split
    · rename_i hadd
      have hlast : table.getLast?.all (· < start) = true := (Bool.and_eq_true_iff.mp hadd).1
      rw [List.append_assoc, List.singleton_append, List.getLast?_concat]
      congr 2
      refine List.filter_congr fun s hs => ?_
      rw [follows_of_lt hlast (hstart s hs), Option.all_some, decide_eq_true (hstart s hs)]
    · rfl

theorem add_eq_self_iff : table.add size start = table ↔
    (table.getLast?.all (· < start) && start < size) = false := by
  rw [add]
  split
  · rename_i h
    simp [h]
  · rename_i h
    simpa using h

/-- A line that is known, or can never be one, is not noted later either. -/
theorem add_of_settled {other : Nat} (h : table.add size start = table) :
    (table.add size other).add size start = table.add size other := by
  rw [add.eq_1 size table other]
  split
  · rename_i hother
    have hlast := (Bool.and_eq_true_iff.mp hother).1
    rw [add_eq_self_iff, List.getLast?_concat, Option.all_some]
    rw [add_eq_self_iff] at h
    by_cases hlt : other < start
    · rw [follows_of_lt hlast hlt] at h
      rw [decide_eq_true hlt]
      exact h
    · rw [decide_eq_false hlt, Bool.false_and]
  · exact h

theorem add_add (size : Nat) (table : LineTable) (start : Nat) :
    (table.add size start).add size start = table.add size start := by
  rw [add_eq_self_iff, add]
  split
  · rw [List.getLast?_concat, Option.all_some, decide_eq_false (Nat.lt_irrefl start), Bool.false_and]
  · rename_i h
    simpa using h

theorem addAll_of_settled (h : table.add size start = table) (starts : List Nat) :
    (table.addAll size starts).add size start = table.addAll size starts := by
  induction starts generalizing table with
  | nil => exact h
  | cons other starts ih => exact ih (add_of_settled h)

/-- Noting a line again changes nothing. -/
theorem addAll_add_of_mem (h : start ∈ starts) :
    (table.addAll size starts).add size start = table.addAll size starts := by
  induction starts generalizing table with
  | nil => cases h
  | cons other starts ih =>
    rcases List.mem_cons.mp h with rfl | hmem
    · exact addAll_of_settled (add_add size table start) starts
    · exact ih hmem

theorem addAll_addAll_of_subset {more : List Nat} (h : more ⊆ starts) :
    (table.addAll size starts).addAll size more = table.addAll size starts := by
  induction more with
  | nil => rfl
  | cons start more ih =>
    obtain ⟨hstart, hmore⟩ := List.cons_subset.mp h
    rw [addAll_cons, addAll_add_of_mem hstart, ih hmore]

/-- In a table that is in order the lines up to an offset come first. -/
theorem upTo_of_pairwise {offset : Nat} (h : table.Pairwise (· < ·)) :
    table.upTo offset = table.filter (· ≤ offset) := @takeWhile_of_pairwise _ id _ h offset

end LineTable

/-! ## Documents -/

namespace Document

variable {doc : Document} {source : List UInt8} {seen : Nat}

theorem lines_readLines (doc : Document) (source : List UInt8) (seen : Nat) :
    (doc.readLines source seen).lines = doc.lines ++ (source.idxsOf 0x0A 1).filter fun s =>
      s ≤ seen && (doc.lines.getLast?.all (· < s) && s < doc.size) := by
  have hpairs : ((source.idxsOf 0x0A 1).filter (· ≤ seen)).Pairwise (· < ·) :=
    List.pairwise_idxsOf.filter _
  rw [readLines, noteLines, LineTable.startsFrom_take]
  simp only [LineTable.addAll_of_pairwise hpairs, List.filter_filter, Bool.and_comm]

/-- All of the source has been read. -/
theorem readLines_of_length_le (h : source.length ≤ seen) (doc : Document) :
    doc.readLines source seen = doc.readLines source source.length := by
  rw [readLines, readLines, List.take_of_length_le h, List.take_length]

theorem readLines_readLines (doc : Document) (source : List UInt8) (seen : Nat) :
    (doc.readLines source seen).readLines source seen = doc.readLines source seen := by
  simp only [readLines, noteLines, LineTable.addAll_addAll_of_subset (List.Subset.refl _)]

/-- A line that has been read before is known. -/
theorem noteLine_readLines {start : Nat} (h : start ∈ source.idxsOf 0x0A 1) (hs : start ≤ seen) :
    (doc.readLines source seen).noteLine start = doc.readLines source seen := by
  have hmem : start ∈ LineTable.startsFrom 0 (source.take seen) := by
    rw [LineTable.startsFrom_take, List.mem_filter]
    exact ⟨h, decide_eq_true hs⟩
  simp only [noteLine, readLines, noteLines, LineTable.addAll_add_of_mem hmem]

/-- Behind a line feed a line starts. -/
theorem readLines_succ (h : source[seen]? = some 0x0A) :
    doc.readLines source (seen + 1) = (doc.readLines source seen).noteLine (seen + 1) := by
  obtain ⟨hlt, hbyte⟩ := List.getElem?_eq_some_iff.mp h
  have hlen : (source.take seen).length = seen := List.length_take_of_le (Nat.le_of_lt hlt)
  have hstarts : LineTable.startsFrom 0 (source.take (seen + 1)) =
      LineTable.startsFrom 0 (source.take seen) ++ [seen + 1] := by
    rw [LineTable.startsFrom_eq_idxsOf, LineTable.startsFrom_eq_idxsOf, List.take_add_one, h,
      List.idxsOf_append, hlen]
    simp [Nat.add_comm]
  simp only [readLines, noteLine, noteLines, hstarts, LineTable.addAll_append]
  rfl

/-- Where no line feed is read, the document stays the same. -/
theorem readLines_congr {further : Nat} (hle : seen ≤ further)
    (h : ∀ start ∈ source.idxsOf 0x0A 1, start ≤ further → start ≤ seen) :
    doc.readLines source further = doc.readLines source seen := by
  rw [readLines, readLines, LineTable.startsFrom_take, LineTable.startsFrom_take]
  congr 1
  refine List.filter_congr fun start hstart => ?_
  rw [decide_eq_decide]
  exact ⟨h start hstart, fun hs => Nat.le_trans hs hle⟩

/-- All lines of the source follow those that had been known. -/
theorem lines_readLines_length (hsize : source.length = doc.size) :
    (doc.readLines source source.length).lines =
      doc.lines ++ (lineStarts source).filter fun s => doc.lines.getLast?.all (· < s) := by
  rw [lines_readLines, lineStarts, List.filter_filter]
  congr 1
  refine List.filter_congr fun s hs => ?_
  have hle := List.lt_add_of_mem_idxsOf s hs
  rw [decide_eq_true (by omega : s ≤ source.length), Bool.true_and, hsize]

/-- Once all lines of a text up to some place are known, the place has the location that it has in the
text. -/
theorem rawLocation_of_upTo {offset : Nat}
    (h : doc.lines.upTo offset = 0 :: (lineStarts source).filter (· ≤ offset)) :
    doc.rawLocation offset = Location.inText doc.name source offset := by
  have hline : (0 :: (lineStarts source).filter (· ≤ offset)).length =
      1 + (lineStarts source).countP (· ≤ offset) := by
    rw [List.length_cons, Nat.add_comm, List.countP_eq_length_filter]
  simp only [rawLocation, Location.inText, LineTable.lineAt, LineTable.columnAt, h, hline,
    List.getLast?_cons, List.getLastD_eq_getLast?]

/-! ## Documents of which nothing had been noted -/

/-- Nothing has been noted about the document. -/
structure IsFresh (doc : Document) : Prop where
  lines : doc.lines = LineTable.fresh
  overrides : doc.overrides = []

theorem IsFresh.lines_readLines (h : doc.IsFresh) (hsize : source.length = doc.size) (seen : Nat) :
    (doc.readLines source seen).lines = 0 :: (lineStarts source).filter (· ≤ seen) := by
  rw [Document.lines_readLines, h.lines, lineStarts, List.filter_filter]
  refine congrArg _ (List.filter_congr fun s hs => ?_)
  have hpos : 0 < s := List.ge_of_mem_idxsOf s hs
  simp [LineTable.fresh, hpos, hsize]

/-- Once a place has been read, its location is that in the text. -/
theorem IsFresh.location_readLines (h : doc.IsFresh) (hsize : source.length = doc.size)
    (hbase : 0 < doc.base) {offset : Nat} (hin : offset ≤ source.length) (hseen : offset ≤ seen)
    (adjusted : Bool) : (doc.readLines source seen).location (doc.base + offset) adjusted =
      .ok (Location.inText doc.name source offset) := by
  have hcovers : (doc.readLines source seen).covers (doc.base + offset) = true := by
    simp [covers, readLines, noteLines, ← hsize, hin]
  have hpairs : (0 :: (lineStarts source).filter (· ≤ seen)).Pairwise (· < ·) := by
    refine List.pairwise_cons.mpr ⟨fun s hs => ?_, (List.pairwise_idxsOf.filter _).filter _⟩
    exact List.ge_of_mem_idxsOf s (List.mem_of_mem_filter (List.mem_of_mem_filter hs))
  have hupTo : (doc.readLines source seen).lines.upTo offset =
      0 :: (lineStarts source).filter (· ≤ offset) := by
    rw [h.lines_readLines hsize, LineTable.upTo_of_pairwise hpairs, List.filter_cons,
      if_pos (by simp), List.filter_filter]
    refine congrArg _ (List.filter_congr fun s _ => ?_)
    rw [Bool.and_eq_left_iff_imp, decide_eq_true_eq, decide_eq_true_eq]
    exact fun hs => Nat.le_trans hs hseen
  have hraw : (doc.readLines source seen).rawLocation offset =
      Location.inText doc.name source offset := rawLocation_of_upTo hupTo
  have hplain : (doc.readLines source seen).overrideAt? offset = none := by
    simp [overrideAt?, readLines, noteLines, h.overrides]
  have hat : (doc.readLines source seen).locationAt offset adjusted =
      Location.inText doc.name source offset := by
    simp only [locationAt, hraw, hplain, ite_self]
  rw [location, if_neg (by omega), offsetOf, if_pos hcovers, ← hat]
  exact congrArg (Except.ok <| (doc.readLines source seen).locationAt · adjusted)
    (Nat.add_sub_cancel_left ..)

end Document

end SchemaScan
