import SchemaScan.Proofs.Source.LineStarts

/-! # Edits of line tables

However the lines of a document are edited, its table stays in order and inside the document. The first
line keeps its place at the beginning too, unless it is displaced: a table may replace the old one although
it is empty, or starts later. From then on the positions in front of its first line are on no line.
-/
namespace SchemaScan

/-! ## Tables in order -/

namespace LineTable

/-- The starts follow one another, and all but the first lie inside a document of this size. -/
structure IsOrdered (size : Nat) (table : LineTable) : Prop where
  increasing : table.Pairwise (· < ·)
  inside : ∀ start ∈ table.tail, start < size

/-- A table in order whose first line starts at the beginning. -/
structure IsSound (size : Nat) (table : LineTable) : Prop extends IsOrdered size table where
  first : table.head? = some 0

variable {size start offset : Nat} {table starts : LineTable}

theorem pairwise_ofContent (content : List UInt8) : (ofContent content).Pairwise (· < ·) := by
  rw [ofContent_eq]
  refine List.pairwise_cons.mpr ⟨fun s hs => ?_, List.pairwise_idxsOf.filter _⟩
  exact List.ge_of_mem_idxsOf s (List.mem_of_mem_filter hs)

/-- What follows the last line follows them all. -/
theorem lt_of_last (h : table.Pairwise (· < ·)) (hlast : table.getLast?.all (· < start) = true) :
    ∀ s ∈ table, s < start := by
  intro s hs
  obtain ⟨front, last, rfl⟩ := (List.eq_nil_or_concat table).resolve_left (List.ne_nil_of_mem hs)
  rw [List.concat_eq_append] at *
  rw [List.getLast?_concat, Option.all_some, decide_eq_true_eq] at hlast
  rcases List.mem_append.mp hs with hs | hs
  · exact Nat.lt_trans ((List.pairwise_append.mp h).2.2 s hs last List.mem_cons_self) hlast
  · obtain rfl := List.mem_singleton.mp hs
    exact hlast

theorem pairwise_add (h : table.Pairwise (· < ·)) (size start : Nat) :
    (table.add size start).Pairwise (· < ·) := by
  rw [LineTable.add]
  split
  · rename_i hadd
    refine List.pairwise_append.mpr ⟨h, List.pairwise_singleton .., fun s hs t ht => ?_⟩
    obtain rfl := List.mem_singleton.mp ht
    exact lt_of_last h (Bool.and_eq_true_iff.mp hadd).1 s hs
  · exact h

theorem pairwise_addAll (h : table.Pairwise (· < ·)) (size : Nat) (starts : List Nat) :
    (table.addAll size starts).Pairwise (· < ·) := by
  induction starts generalizing table with
  | nil => exact h
  | cons start starts ih => exact ih (pairwise_add h size start)

theorem isSound_fresh (size : Nat) : IsSound size fresh where
  increasing := List.pairwise_singleton ..
  inside := by simp [fresh]
  first := rfl

theorem isSound_ofContent {content : List UInt8} (hsize : content.length = size) :
    IsSound size (ofContent content) := by
  refine ⟨⟨pairwise_ofContent content, fun s hs => ?_⟩, rfl⟩
  rw [ofContent_eq] at hs
  rw [← hsize]
  exact of_decide_eq_true (List.mem_filter.mp hs).2

theorem isOrdered_of_isTableFor (h : isTableFor size starts = true) : IsOrdered size starts := by
  obtain ⟨hincreasing, hinside⟩ := Bool.and_eq_true_iff.mp h
  refine ⟨of_decide_eq_true hincreasing, fun s hs => ?_⟩
  exact of_decide_eq_true (List.all_eq_true.mp hinside s (List.mem_of_mem_tail hs))

theorem IsOrdered.add (h : table.IsOrdered size) (start : Nat) : (table.add size start).IsOrdered size := by
  refine ⟨pairwise_add h.increasing size start, fun s hs => ?_⟩
  rw [LineTable.add] at hs
  split at hs
  · rename_i hadd
    cases table with
    | nil => cases hs
    | cons first table =>
      rcases List.mem_append.mp hs with hs | hs
      · exact h.inside s hs
      · obtain rfl := List.mem_singleton.mp hs
        exact of_decide_eq_true (Bool.and_eq_true_iff.mp hadd).2
  · exact h.inside s hs

theorem IsOrdered.addAll (h : table.IsOrdered size) (starts : List Nat) :
    (table.addAll size starts).IsOrdered size := by
  induction starts generalizing table with
  | nil => exact h
  | cons start starts ih => exact ih (h.add start)

theorem IsOrdered.eraseIdx (h : table.IsOrdered size) (line : Nat) :
    IsOrdered size (List.eraseIdx table (line + 1)) := by
  refine ⟨h.increasing.eraseIdx _, ?_⟩
  cases table with
  | nil => simp
  | cons first table => exact fun s hs => h.inside s (List.mem_of_mem_eraseIdx hs)

theorem head?_addAll {first : Nat} (h : table.head? = some first) (starts : List Nat) :
    (table.addAll size starts).head? = some first := by
  induction starts generalizing table with
  | nil => exact h
  | cons start starts ih =>
    apply ih
    rw [LineTable.add]
    split
    · rw [List.head?_append, h, Option.some_or]
    · exact h

/-- What becomes of a table that is not replaced by a given one. -/
inductive Develops (size : Nat) (table : LineTable) : LineTable → Prop
  | adds (starts : List Nat) : Develops size table (table.addAll size starts)
  | joins (line : Nat) : Develops size table (List.eraseIdx table (line + 1))
  | reads {content : List UInt8} (h : content.length = size) : Develops size table (ofContent content)

theorem Develops.isOrdered {after : LineTable} (hd : table.Develops size after) (h : table.IsOrdered size) :
    after.IsOrdered size := by
  cases hd with
  | adds starts => exact h.addAll starts
  | joins line => exact h.eraseIdx line
  | reads hsize => exact (isSound_ofContent hsize).toIsOrdered

theorem Develops.first {after : LineTable} (hd : table.Develops size after) (h : table.head? = some 0) :
    after.head? = some 0 := by
  cases hd with
  | adds starts => exact head?_addAll h starts
  | joins line =>
    obtain ⟨rest, rfl⟩ := List.head?_eq_some_iff.mp h
    rfl
  | reads hsize => exact (isSound_ofContent hsize).first

/-! ## Lines and columns -/

/-- In a sound table every offset is on a line, and has a column there. -/
theorem IsSound.known (h : table.IsSound size) (offset : Nat) :
    1 ≤ table.lineAt offset ∧ 1 ≤ table.columnAt offset := by
  obtain ⟨rest, rfl⟩ := List.head?_eq_some_iff.mp h.first
  have hupTo : LineTable.upTo (0 :: rest) offset = 0 :: rest.takeWhile (· ≤ offset) := by simp [upTo]
  rw [lineAt, columnAt, hupTo, List.getLast?_cons]
  exact ⟨Nat.le_add_left .., Nat.le_add_left ..⟩

/-- In front of the first line of its table an offset is on no line. -/
theorem unknown_of_lt (h : ∀ first ∈ table.head?, offset < first) :
    table.lineAt offset = 0 ∧ table.columnAt offset = 0 := by
  have hupTo : table.upTo offset = [] := by
    cases table with
    | nil => rfl
    | cons first table =>
      have hlt : offset < first := h first rfl
      simp [upTo, Nat.not_le.mpr hlt]
  rw [lineAt, columnAt, hupTo]
  exact ⟨rfl, rfl⟩

end LineTable

/-! ## Edits -/

/-- What is done to the lines of a document. -/
inductive Edit where
  | change (c : Change)
  | scan (source : List UInt8) (mode : Mode)
  /-- A scan that is given up after so many bytes have been read. -/
  | beginning (source : List UInt8) (seen : Nat)
  deriving DecidableEq, Repr

namespace Edit

/-- A text that is given for a document has the size of the document. -/
def Fits (size : Nat) : Edit → Prop
  | change (.content bytes) => bytes.length = size
  | change _ => True
  | scan source _ | beginning source _ => source.length = size

/-- The edit gives a table that is accepted, although its first line does not start at the beginning. -/
def Displaces (size : Nat) : Edit → Prop
  | change (.table starts) => LineTable.isTableFor size starts = true ∧ starts.head? ≠ some 0
  | _ => False

end Edit

namespace Document

/-- Makes an edit; one that is refused leaves the document as it is. -/
def edit (doc : Document) : Edit → Document
  | .change c => doc.change c
  | .scan source mode =>
    match doc.scan source mode with
    | .ok (_, after) => after
    | .error _ => doc
  | .beginning source seen => doc.readLines source seen

def editAll (doc : Document) (edits : List Edit) : Document := edits.foldl edit doc

variable {doc : Document} {e : Edit}

theorem edit_scan {source : List UInt8} (hfit : source.length = doc.size) (mode : Mode) :
    doc.edit (.scan source mode) = doc.readLines source (Trace.ofSource mode source).seen := by
  rw [edit, scan_of_size doc hfit]

theorem extent_edit (doc : Document) (e : Edit) : (doc.edit e).extent = doc.extent := by
  cases e with
  | change c => exact doc.extent_change c
  | scan source mode =>
    rw [edit, scan]
    split
    · rename_i h
      split at h
      · cases h
        rfl
      · cases h
    · rfl
  | beginning source seen => rfl

theorem size_edit (doc : Document) (e : Edit) : (doc.edit e).size = doc.size :=
  congrArg Prod.snd (doc.extent_edit e)

/-- Only a given table that is accepted replaces the lines. -/
theorem lines_edit (hfit : e.Fits doc.size) :
    (doc.lines.Develops doc.size (doc.edit e).lines ∧ ¬ e.Displaces doc.size) ∨
      ∃ starts, e = .change (.table starts) ∧ LineTable.isTableFor doc.size starts = true ∧
        (doc.edit e).lines = starts := by
  have hsame : doc.lines.Develops doc.size doc.lines := .adds []
  cases e with
  | change c =>
    cases c with
    | line start => exact .inl ⟨.adds [start], id⟩
    | join line =>
      refine .inl ⟨?_, id⟩
      simp only [edit, change, joinLine]
      split
      · exact hsame
      · split
        · obtain ⟨line, rfl⟩ := Nat.exists_eq_succ_of_ne_zero ‹_›
          exact .joins line
        · exact hsame
    | table starts =>
      by_cases haccepted : LineTable.isTableFor doc.size starts = true
      · refine .inr ⟨starts, rfl, haccepted, ?_⟩
        simp [edit, change, withLines?, haccepted]
      · refine .inl ⟨?_, fun hdisplaces => haccepted hdisplaces.1⟩
        simpa [edit, change, withLines?, haccepted] using hsame
    | content bytes => exact .inl ⟨.reads hfit, id⟩
    | override o =>
      refine .inl ⟨?_, id⟩
      simp only [edit, change, noteOverride]
      split <;> exact hsame
  | scan source mode =>
    rw [edit_scan hfit]
    exact .inl ⟨.adds _, id⟩
  | beginning source seen => exact .inl ⟨.adds _, id⟩

/-- Every edit keeps the table in order. -/
theorem isOrdered_edit (h : doc.lines.IsOrdered doc.size) (hfit : e.Fits doc.size) :
    (doc.edit e).lines.IsOrdered doc.size := by
  obtain ⟨hd, -⟩ | ⟨starts, -, haccepted, hlines⟩ := lines_edit hfit
  · exact hd.isOrdered h
  · rw [hlines]
    exact LineTable.isOrdered_of_isTableFor haccepted

/-- The first line keeps its place exactly if the edit does not displace it. -/
theorem first_edit_iff (h : doc.lines.head? = some 0) (hfit : e.Fits doc.size) :
    (doc.edit e).lines.head? = some 0 ↔ ¬ e.Displaces doc.size := by
  obtain ⟨hd, hkept⟩ | ⟨starts, rfl, haccepted, hlines⟩ := lines_edit hfit
  · exact iff_of_true (hd.first h) hkept
  · rw [hlines, Edit.Displaces, not_and, not_not]
    exact ⟨fun hfirst _ => hfirst, fun hkept => hkept haccepted⟩

/-! ## Histories -/

theorem extent_editAll (doc : Document) (edits : List Edit) : (doc.editAll edits).extent = doc.extent := by
  induction edits generalizing doc with
  | nil => rfl
  | cons e edits ih => exact (ih (doc.edit e)).trans (doc.extent_edit e)

theorem isOrdered_editAll {edits : List Edit} (h : doc.lines.IsOrdered doc.size)
    (hfit : ∀ e ∈ edits, e.Fits doc.size) : (doc.editAll edits).lines.IsOrdered doc.size := by
  induction edits generalizing doc with
  | nil => exact h
  | cons e edits ih =>
    obtain ⟨he, hedits⟩ := List.forall_mem_cons.mp hfit
    have hstep := isOrdered_edit h he
    rw [← doc.size_edit e] at hstep hedits ⊢
    exact ih hstep hedits

/-- The first line is in its place all the time exactly if no edit displaces it. -/
theorem first_take_iff {edits : List Edit} (h : doc.lines.head? = some 0)
    (hfit : ∀ e ∈ edits, e.Fits doc.size) :
    (∀ n, (doc.editAll (edits.take n)).lines.head? = some 0) ↔ ∀ e ∈ edits, ¬ e.Displaces doc.size := by
  induction edits generalizing doc with
  | nil => exact iff_of_true (fun n => by rw [List.take_nil]; exact h) (List.forall_mem_nil _)
  | cons e edits ih =>
    obtain ⟨he, hedits⟩ := List.forall_mem_cons.mp hfit
    have hstep := first_edit_iff h he
    have hrest (hfirst : (doc.edit e).lines.head? = some 0) := @ih (doc.edit e) hfirst (by rwa [doc.size_edit e])
    rw [doc.size_edit e] at hrest
    rw [List.forall_mem_cons]
    constructor
    · intro hall
      have hfirst := hall 1
      exact ⟨hstep.mp hfirst, (hrest hfirst).mp fun n => hall (n + 1)⟩
    · rintro ⟨hkept, hothers⟩ n
      cases n with
      | zero => exact h
      | succ n => exact (hrest (hstep.mpr hkept)).mpr hothers n

/-! ## Locations -/

theorem location_eq_locationAt {pos : Nat} (hbase : 0 < doc.base) (hcovers : doc.covers pos = true)
    (adjusted : Bool) : doc.location pos adjusted = .ok (doc.locationAt (pos - doc.base) adjusted) := by
  have hpos : pos ≠ 0 := by
    have hle := (covers_eq_true_iff.mp hcovers).1
    omega
  rw [location, if_neg hpos, offsetOf, if_pos hcovers]
  rfl

/-- A document that has stayed in its place has locations for the same positions. -/
theorem location_eq_of_extent {after : Document} (hextent : after.extent = doc.extent) {pos : Nat}
    (hbase : 0 < doc.base) (hcovers : doc.covers pos = true) (adjusted : Bool) :
    after.location pos adjusted = .ok (after.locationAt (pos - doc.base) adjusted) := by
  obtain ⟨hbases, hsizes⟩ := Prod.mk.inj hextent
  rw [← hbases]
  refine location_eq_locationAt (hbases ▸ hbase) ?_ adjusted
  rw [covers, hbases, hsizes]
  exact hcovers

theorem location_of_covers {pos : Nat} (hbase : 0 < doc.base) (hcovers : doc.covers pos = true) :
    doc.location pos false = .ok (doc.rawLocation (pos - doc.base)) :=
  location_eq_locationAt hbase hcovers false

/-- What holds of a document after a history of edits. -/
structure Keeps (doc : Document) (edits : List Edit) : Prop where
  ordered : (doc.editAll edits).lines.IsOrdered doc.size
  /-- All tables on the way are sound exactly if no edit displaces the first line. -/
  sound_iff : (∀ n, (doc.editAll (edits.take n)).lines.IsSound doc.size) ↔
    ∀ e ∈ edits, ¬ e.Displaces doc.size
  known : (doc.editAll edits).lines.IsSound doc.size → ∀ pos, doc.covers pos = true →
    ∃ l, (doc.editAll edits).location pos false = .ok l ∧ 1 ≤ l.line ∧ 1 ≤ l.column
  /-- If the first line has been displaced, not even the first position has a line. -/
  unknown : ¬ (doc.editAll edits).lines.IsSound doc.size →
    ∃ l, (doc.editAll edits).location doc.base false = .ok l ∧ l.line = 0 ∧ l.column = 0
  refused : ∀ starts, (doc.editAll edits).withLines? starts = none →
    doc.editAll (edits ++ [.change (.table starts)]) = doc.editAll edits

/-- From a document of which nothing has been read on, every history of edits keeps the table in order.
It keeps the first line at the beginning, and so a line and a column for every position, unless some edit
displaces that line. -/
theorem editAll_keeps {doc : Document} (hlines : doc.lines = LineTable.fresh) (hbase : 0 < doc.base)
    {edits : List Edit} (hfit : ∀ e ∈ edits, e.Fits doc.size) : doc.Keeps edits := by
  have hfresh : doc.lines.IsSound doc.size := hlines ▸ LineTable.isSound_fresh doc.size
  have hordered {edits : List Edit} (hfit : ∀ e ∈ edits, e.Fits doc.size) :=
    isOrdered_editAll hfresh.toIsOrdered hfit
  obtain ⟨hbases, hsizes⟩ := Prod.mk.inj (doc.extent_editAll edits)
  have hlocation {pos : Nat} (hcovers : doc.covers pos = true) :
      (doc.editAll edits).location pos false = .ok ((doc.editAll edits).rawLocation (pos - doc.base)) := by
    rw [← hbases]
    refine location_of_covers (hbases ▸ hbase) ?_
    rw [covers, hbases, hsizes]
    exact hcovers
  constructor
  case ordered => exact hordered hfit
  case sound_iff =>
    rw [← first_take_iff hfresh.first hfit]
    refine forall_congr' fun n => ⟨LineTable.IsSound.first, fun hfirst => ⟨?_, hfirst⟩⟩
    exact hordered fun e he => hfit e (List.mem_of_mem_take he)
  case known =>
    intro hsound pos hcovers
    exact ⟨_, hlocation hcovers, hsound.known _⟩
  case unknown =>
    intro hdisplaced
    have hfirst : ∀ first ∈ (doc.editAll edits).lines.head?, doc.base - doc.base < first := by
      intro first hhead
      rw [Nat.sub_self]
      refine Nat.pos_of_ne_zero fun hzero => hdisplaced ⟨hordered hfit, ?_⟩
      exact hzero ▸ hhead
    refine ⟨_, hlocation ?_, LineTable.unknown_of_lt hfirst⟩
    simp [covers]
  case refused =>
    intro starts hrefused
    rw [editAll, List.foldl_append]
    change ((doc.editAll edits).withLines? starts).getD (doc.editAll edits) = doc.editAll edits
    rw [hrefused, Option.getD_none]

/-- A scan that is given up, a line joined with the one after it, a table that is refused, and a scan of the
whole source. -/
theorem editAll_keeps_scans :
    let doc : Document := { name := "a", base := 7, size := 4 }
    let edits : List Edit := [.beginning [0x0A, 0x0A, 0x3F, 0x0A] 2, .change (.join 1),
      .change (.table [0, 4]), .scan [0x0A, 0x0A, 0x3F, 0x0A] {}]
    doc.lines = LineTable.fresh ∧ 0 < doc.base ∧ (∀ e ∈ edits, e.Fits doc.size) ∧ doc.Keeps edits := by
  intro doc edits
  have hfit : ∀ e ∈ edits, e.Fits doc.size := by
    simp [edits, doc, Edit.Fits]
  exact ⟨rfl, by decide, hfit, editAll_keeps rfl (by decide) hfit⟩

/-- A table that starts later is accepted, and then the first position is on no line. -/
theorem editAll_displaced :
    let doc : Document := { name := "a", base := 1, size := 5 }
    let edits : List Edit := [.change (.table [3])]
    doc.lines = LineTable.fresh ∧ (∀ e ∈ edits, e.Fits doc.size) ∧
      (doc.withLines? [3]).isSome = true ∧ (doc.editAll edits).lines.head? ≠ some 0 ∧
      ∃ l, (doc.editAll edits).location 1 false = .ok l ∧ l.line = 0 ∧ l.column = 0 := by
  intro doc edits
  refine ⟨rfl, ?_, by decide, by decide, ⟨_, rfl, rfl, rfl⟩⟩
  simp [edits, Edit.Fits]

end Document

end SchemaScan
