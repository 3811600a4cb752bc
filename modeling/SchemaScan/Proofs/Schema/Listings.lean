import SchemaScan.Proofs.Schema.Enumerations

/-! # Separators in conflict

The first separator of an enumeration fixes what all others have to be. The scan takes the values up to the
first separator that differs, and fails at the byte of that separator, in the line in which it stands.
-/
namespace SchemaScan

namespace Schema

open Piece

/-- What stands behind a value. -/
inductive Delimiter where
  | comma | lineBreak
  deriving DecidableEq, Repr

def Delimiter.char : Delimiter → Char
  | comma => ','
  | lineBreak => '\n'

/-- An enumeration whose values all have a separator behind them, except for the last one, if there is
one that has none. -/
structure Listing where
  name : Name
  values : List (Name × Delimiter)
  last : Option Name
  /-- The number of blanks in front of the closing brace, apart from the one behind the last value. -/
  blanks : Nat

namespace Listing

def delimiters (e : Listing) : List Delimiter := e.values.map (·.2)

/-- The pieces up to the opening brace. -/
def opening (e : Listing) : List Piece := [word .enum, blank, e.name.piece, blank, mark .braceOpen]

/-- Values, with a blank on either side and their separators behind them. -/
def delimited (values : List (Name × Delimiter)) : List Piece :=
  values.flatMap fun v => Enumeration.value v.1 ++ [gap [v.2.char]]

def closing (e : Listing) : List Piece :=
  match e.last with
  | none => [gap (List.replicate e.blanks ' '), mark .braceClose]
  | some v => [blank, v.piece, gap (' ' :: List.replicate e.blanks ' '), mark .braceClose]

def pieces (e : Listing) : List Piece := e.opening ++ delimited e.values ++ e.closing

def source (e : Listing) : List UInt8 := (allRunes e.pieces).flatMap Rune.bytes

/-- The pieces in front of the separator that stands behind the value `v` and `j` others. -/
def upTo (e : Listing) (j : Nat) (v : Name) : List Piece :=
  e.opening ++ delimited (e.values.take j) ++ Enumeration.value v

theorem readable_value (v : Name) : Readable (Enumeration.value v) := by simp [Enumeration.value]

theorem readable_delimited (values : List (Name × Delimiter)) : Readable (delimited values) := by
  intro p hp
  obtain ⟨v, -, hp⟩ := List.mem_flatMap.mp hp
  exact (readable_append.mpr ⟨readable_value v.1, by simp⟩ : Readable _) p hp

theorem readable_opening (e : Listing) : Readable e.opening := by simp [opening]

theorem readable_pieces (e : Listing) : Readable e.pieces := by
  have hclosing : Readable e.closing := by
    unfold closing
    split <;> simp
  simp [pieces, readable_opening, readable_delimited, hclosing]

theorem readable_upTo (e : Listing) (j : Nat) (v : Name) : Readable (e.upTo j v) := by
  simp [upTo, readable_opening, readable_delimited, readable_value]

/-- Behind the pieces up to a separator stands the separator. -/
theorem pieces_eq {e : Listing} {j : Nat} {v : Name} {d : Delimiter} (h : e.values[j]? = some (v, d)) :
    ∃ rest, e.pieces = e.upTo j v ++ gap [d.char] :: rest := by
  obtain ⟨hj, hv⟩ := List.getElem?_eq_some_iff.mp h
  have hsplit : e.values = e.values.take j ++ (v, d) :: e.values.drop (j + 1) := by
    rw [← hv, ← List.drop_eq_getElem_cons hj, List.take_append_drop]
  refine ⟨delimited (e.values.drop (j + 1)) ++ e.closing, ?_⟩
  have hdelimited : delimited e.values = delimited (e.values.take j) ++
      (Enumeration.value v ++ gap [d.char] :: delimited (e.values.drop (j + 1))) := by
    conv_lhs => rw [hsplit]
    simp [delimited]
  rw [pieces, hdelimited, upTo]
  simp

/-! ## Reading -/

variable {mode : Mode} {next : Option Char} {fixed : Option Char} {s : Delimiter}

theorem reads_value (fixed : Option Char) (v : Name) (d : Delimiter) :
    Reads mode [.elements .members fixed] (Enumeration.value v) [.separator .members fixed]
      (some d.char) := by
  have hlayout : [' '].all isSpace = true := by decide
  have hd : d.char ∈ [',', '\n', '#', '}'] := by cases d <;> decide
  exact Reads.enumerated fixed v hlayout hd

theorem reads_delimiter (hfixed : fixed = none ∨ fixed = some s.char) :
    Reads mode [.separator .members fixed] [gap [s.char]] [.elements .members (some s.char)] next := by
  have hallows : Series.members.allows s.char = true := by cases s <;> decide
  exact Reads.separator_char hallows hfixed

/-- Values with the same separator behind each of them fix it. -/
theorem reads_delimited {values : List (Name × Delimiter)} (h : ∀ v ∈ values, v.2 = s)
    (hfixed : fixed = none ∨ fixed = some s.char) :
    Reads mode [.elements .members fixed] (delimited values)
      [.elements .members (if values = [] then fixed else some s.char)] next := by
  induction values generalizing fixed with
  | nil => exact Reads.nil
  | cons v values ih =>
    obtain ⟨rfl, hvalues⟩ := List.forall_mem_cons.mp h
    have hrest := ih hvalues (.inr rfl)
    rw [ite_self] at hrest
    rw [if_neg (List.cons_ne_nil v values)]
    have hvalue : Reads mode [.elements .members fixed] (Enumeration.value v.1 ++ [gap [v.2.char]])
        [.elements .members (some v.2.char)] (front (delimited values) next) :=
      (reads_value fixed v.1 v.2).trans (reads_delimiter hfixed)
    exact hvalue.trans hrest

theorem reads_closing (e : Listing) (hfixed : fixed = none ∨ fixed = some s.char) :
    Reads mode [.elements .members fixed] e.closing [] next := by
  have hblanks : (List.replicate e.blanks ' ').all isBlank = true := by
    rw [List.all_replicate]
    exact ite_self _
  have hlayout : [' '].all isSpace = true ∧ (List.replicate e.blanks ' ').all isSpace = true := by
    rw [List.all_replicate]
    exact ⟨rfl, ite_self _⟩
  have hclose : fixed ≠ some Mark.braceClose.char := by
    rcases hfixed with rfl | rfl
    · simp
    · cases s <;> decide
  unfold closing
  split
  · have hgap : Reads mode [.elements .members fixed] [gap (List.replicate e.blanks ' ')]
        [.elements .members fixed] (some '}') := Reads.elements_layout hlayout.2 rfl
    exact hgap.trans (Reads.elements_close (m := .braceClose) rfl)
  · rename_i v _
    have hvalue : Reads mode [.elements .members fixed]
        [blank, v.piece, gap (' ' :: List.replicate e.blanks ' ')] [.separator .members fixed] (some '}') :=
      Reads.enumerated_blanks fixed v hlayout.1 hblanks (by simp)
    exact hvalue.trans (Reads.separator_close rfl hclose)

/-- With no other separator than `s` the enumeration is read to its end. -/
theorem reads_pieces {e : Listing} (h : ∀ d ∈ e.delimiters, d = s) :
    Reads mode [.name .definition] e.pieces [] next := by
  have hvalues : ∀ v ∈ e.values, v.2 = s := fun v hv => h _ (List.mem_map_of_mem hv)
  have hdelimited : Reads mode [.elements .members none] (delimited e.values)
      [.elements .members (if e.values = [] then none else some s.char)] (front e.closing next) :=
    reads_delimited hvalues (.inl rfl)
  have hfixed : (if e.values = [] then none else some s.char) = none ∨
      (if e.values = [] then none else some s.char) = some s.char := by
    split
    · exact .inl rfl
    · exact .inr rfl
  exact ((Reads.enumHead e.name).trans hdelimited).trans (e.reads_closing hfixed)

/-- The enumeration is read up to the separator behind `v`, if all before it are `s`. -/
theorem reads_upTo {e : Listing} {j : Nat} {v : Name} (d : Delimiter) (hj : e.values.take j ≠ [])
    (h : ∀ t ∈ e.delimiters.take j, t = s) :
    Reads mode [.name .definition] (e.upTo j v) [.separator .members (some s.char)] (some d.char) := by
  have hvalues : ∀ v ∈ e.values.take j, v.2 = s := by
    rw [delimiters, ← List.map_take] at h
    exact fun v hv => h _ (List.mem_map_of_mem hv)
  have hdelimited : Reads mode [.elements .members none] (delimited (e.values.take j))
      [.elements .members (if e.values.take j = [] then none else some s.char)]
      (front (Enumeration.value v) (some d.char)) := reads_delimited hvalues (.inl rfl)
  rw [if_neg hj] at hdelimited
  exact ((Reads.enumHead e.name).trans hdelimited).trans (reads_value _ v d)

/-! ## Scanning -/

theorem front_pieces (e : Listing) (next : Option Char) : front e.pieces next = some 'e' := rfl

theorem step_first {c : Cursor} (h : c.peek = some 'e') :
    State.step mode ⟨c, []⟩ = State.step mode ⟨c.look, [.name .definition]⟩ := by
  have hspace : isSpace 'e' = false := rfl
  have hstart : isNameStart 'e' = true := by decide
  simp [State.step, Step.topLevel, h, hspace, hstart]

theorem trace_source {e : Listing} (h : ∀ d ∈ e.delimiters, d = s) :
    ∃ seen, Trace.ofSource mode e.source =
      ⟨lexemes 0 1 e.pieces, .eof e.source.length (1 + e.source.count 0x0A), seen⟩ := by
  have hmark : front e.pieces none ≠ some byteOrderMark := by
    rw [front_pieces]
    decide
  refine trace_pieces mode e.readable_pieces hmark (ReadsTop.of_goal (fun c hc => ?_) (reads_pieces h))
  exact step_first (hc.trans (e.front_pieces _))

/-- The number of bytes in front of the separator behind `v`. -/
def place (e : Listing) (j : Nat) (v : Name) : Nat := ((allRunes (e.upTo j v)).flatMap Rune.bytes).length

theorem trace_conflict {e : Listing} {j : Nat} {v : Name} {d : Delimiter}
    (hd : e.values[j]? = some (v, d)) (hne : d ≠ s) (hj : e.values.take j ≠ [])
    (h : ∀ t ∈ e.delimiters.take j, t = s) :
    ∃ seen, Trace.ofSource mode e.source = ⟨lexemes 0 1 (e.upTo j v),
      .fault .mixedSeparators (e.place j v) (1 + (e.source.take (e.place j v)).count 0x0A), seen⟩ := by
  obtain ⟨rest, hpieces⟩ := pieces_eq hd
  let start := Cursor.start (allRunes e.pieces)
  have hmark : front e.pieces none ≠ some byteOrderMark := by
    rw [front_pieces]
    decide
  have hstart : start.look.rest = allRunes (e.upTo j v) ++ (.scalar d.char :: allRunes rest) := by
    change allRunes e.pieces = _
    rw [hpieces, allRunes_append]
    rfl
  have hread : Reads mode [.name .definition] (e.upTo j v) [.separator .members (some s.char)]
      (some d.char) := reads_upTo d hj h
  obtain ⟨c, hc, hleads⟩ := hread start.look _ hstart rfl
  have hfixed : ¬(some s.char = none ∨ some s.char = some d.char) := by
    rintro (hnone | hsame)
    · cases hnone
    · exact hne (by revert hsame; cases d <;> cases s <;> decide)
  have hallows : Series.members.allows d.char = true := by cases d <;> decide
  have hstep : State.step mode ⟨c, [.separator .members (some s.char)]⟩ =
      .halt (.fault .mixedSeparators c.offset c.line) c.look :=
    Separator.faults_char hallows hfixed (Reads.rest_eq hstart hc)
  have hoffset : c.offset = e.place j v := by
    rw [hc.offset, place, Rune.length_flatMap_bytes]
    exact Nat.zero_add _
  have hline : c.line = 1 + (e.source.take (e.place j v)).count 0x0A := by
    have hhigh : ∀ b, .stray b ∈ allRunes (e.upTo j v) → 0x80 ≤ b.toNat := by
      intro b hb
      rw [← read_pieces (e.readable_upTo j v)] at hb
      exact Rune.stray_high hb
    have htake : e.source.take (e.place j v) = (allRunes (e.upTo j v)).flatMap Rune.bytes := by
      rw [source, hpieces, allRunes_append, List.flatMap_append, place, List.take_left']
      rfl
    rw [hc.line, Rune.lineFeeds_eq_count hhigh, htake]
    rfl
  refine ⟨c.look.seen, ?_⟩
  have hfirst : State.step mode ⟨start, []⟩ = State.step mode ⟨start.look, [.name .definition]⟩ :=
    step_first rfl
  have hlead := (State.Leads.of_step_eq hfirst).trans (hleads [])
  rw [Trace.ofSource, source, initial_pieces e.readable_pieces hmark]
  refine Eq.trans hlead ?_
  rw [List.append_nil, State.trace_of_halt hstep, hoffset, hline, List.append_nil]
  rfl

/-- At its place stands the separator. -/
theorem getElem?_place {e : Listing} {j : Nat} {v : Name} {d : Delimiter}
    (h : e.values[j]? = some (v, d)) : e.source[e.place j v]? = some (UInt8.ofNat d.char.toNat) := by
  obtain ⟨rest, hpieces⟩ := pieces_eq h
  rw [source, hpieces, allRunes_append, List.flatMap_append, place, List.getElem?_append_right (Nat.le_refl _),
    Nat.sub_self]
  cases d <;> rfl

end Listing

end Schema

open Schema Piece in
/-- If all separators of an enumeration are equal to the first one, the scan finds its tokens and reaches the
end. Otherwise it finds those in front of the first separator that differs, and fails there. -/
theorem Document.scan_listing (doc : Document) (e : Listing) (mode : Mode) :
    ∃ items after, { doc with size := e.source.length }.scan e.source mode = .ok (items, after) ∧
      ((∀ d ∈ e.delimiters, some d = e.delimiters.head?) →
        items = (lexemes 0 1 e.pieces).map (·.item doc.base) ++
          [⟨.eof, doc.base + e.source.length, "", 1 + e.source.count 0x0A⟩]) ∧
      ∀ j v d, e.values[j]? = some (v, d) → some d ≠ e.delimiters.head? →
        (∀ t ∈ e.delimiters.take j, some t = e.delimiters.head?) →
          e.source[e.place j v]? = some (UInt8.ofNat d.char.toNat) ∧
          items = (lexemes 0 1 (e.upTo j v)).map (·.item doc.base) ++
            [⟨.error, doc.base + e.place j v, "list separator must remain the same throughout the list",
              1 + (e.source.take (e.place j v)).count 0x0A⟩] := by
  refine ⟨_, _, if_pos rfl, ?_, ?_⟩
  · intro h
    have hall : ∃ s, ∀ d ∈ e.delimiters, d = s := by
      cases hd : e.delimiters with
      | nil => exact ⟨.comma, by simp⟩
      | cons s ds =>
        rw [hd] at h
        exact ⟨s, fun d hmem => Option.some.inj (h d hmem)⟩
    obtain ⟨s, hs⟩ := hall
    obtain ⟨seen, htrace⟩ : ∃ seen, Trace.ofSource mode e.source = _ := Listing.trace_source hs
    rw [htrace]
    rfl
  · intro j v d hd hne hbefore
    refine ⟨Listing.getElem?_place hd, ?_⟩
    have hj : j ≠ 0 := by
      rintro rfl
      apply hne
      rw [Listing.delimiters, List.head?_map, List.head?_eq_getElem?, hd]
      rfl
    have hvalues : e.values ≠ [] := by
      intro hnil
      rw [hnil] at hd
      cases hd
    obtain ⟨first, others, hfirst⟩ := List.exists_cons_of_ne_nil hvalues
    have hhead : e.delimiters.head? = some first.2 := by rw [Listing.delimiters, hfirst]; rfl
    rw [hhead] at hne hbefore
    have htake : e.values.take j ≠ [] := by
      rw [Ne, List.take_eq_nil_iff]
      exact not_or.mpr ⟨hj, hvalues⟩
    obtain ⟨seen, htrace⟩ : ∃ seen, Trace.ofSource mode e.source = _ :=
      Listing.trace_conflict hd (fun h => hne (congrArg some h)) htake
        fun t ht => Option.some.inj (hbefore t ht)
    rw [htrace]
    rfl

open Schema in
/-- A comma and then a line break. -/
theorem Document.scan_listing_mixed :
    ∃ e : Listing, e.source = "enum E \x7b A , B \n \x7d".toUTF8.data.toList ∧ ∃ items after,
      ({ name := "a", base := 1, size := 18 } : Document).scan e.source {} = .ok (items, after) ∧
      items = [⟨.keyword .enum, 1, "enum", 1⟩, ⟨.ident, 6, "E", 1⟩, ⟨.mark .braceOpen, 8, "\x7b", 1⟩,
        ⟨.ident, 10, "A", 1⟩, ⟨.ident, 14, "B", 1⟩,
        ⟨.error, 16, "list separator must remain the same throughout the list", 1⟩] := by
  let name (c : Char) (h : isNameStart c = true) : Name := ⟨c, [], h, List.forall_mem_nil _⟩
  let e : Listing := ⟨name 'E' rfl, [(name 'A' rfl, .comma), (name 'B' rfl, .lineBreak)], none, 1⟩
  obtain ⟨items, after, hscan, -, hconflict⟩ := Document.scan_listing { name := "a", base := 1, size := 0 } e {}
  have hbefore : ∀ t ∈ e.delimiters.take 1, some t = e.delimiters.head? := by decide
  obtain ⟨-, hitems⟩ := hconflict 1 _ .lineBreak rfl (by decide) hbefore
  have hsize : e.source.length = 18 := by decide +kernel
  rw [hsize] at hscan
  refine ⟨e, by decide +kernel, items, after, hscan, ?_⟩
  rw [hitems]
  decide +kernel

end SchemaScan
