import SchemaScan.Proofs.Scan.Gaps
import SchemaScan.Proofs.Scan.Moves
import SchemaScan.Proofs.Scan.Sight
import SchemaScan.Proofs.Source.LineStarts
import SchemaScan.Scan.Motion

/-! # The line table of a scanned document

However a head moves over a source, its document knows the lines up to the furthest place where the head
has been, behind those that it had known before. So a scan that comes to the end of its source leaves the
table that the whole source makes, and a second scan adds nothing.
-/
namespace SchemaScan

/-! ## Moves of a head -/

namespace Scanner

variable {input : Input} {h : Head}

theorem next_of_length_le (hend : input.source.length ≤ h.pos) :
    next input h = some (.ok none, { h with width := 0 }) := by
  simp only [next, bind_apply]
  change (if input.source.length ≤ h.pos then _ else _ : Scanner (Option Char)) input h = _
  rw [if_pos hend]
  rfl

theorem next_of_read {r : Rune} {rest : List Rune} (hend : h.pos < input.source.length)
    (hread : Rune.read (input.source.drop h.pos) = r :: rest) :
    next input h = some (.ok (some r.char), { h with
      pos := h.pos + r.width
      width := r.width
      line := if r.char = '\n' then h.line + 1 else h.line }) := by
  simp only [next, bind_apply]
  change (if input.source.length ≤ h.pos then _ else _ : Scanner (Option Char)) input h = _
  rw [if_neg (Nat.not_le.mpr hend)]
  simp only [hread]
  rfl

theorem ok_bind {α β : Type} {m : Scanner α} {f : α → Scanner β} {b : β} {h' : Head} :
    (m >>= f) input h = some (.ok b, h') ↔
      ∃ a k, m input h = some (.ok a, k) ∧ f a input k = some (.ok b, h') := by
  rw [bind_apply]
  rcases m input h with _ | ⟨_ | _, _⟩ <;> simp

theorem ok_minus {whole part n : Nat} {h' : Head} (hm : minus whole part input h = some (.ok n, h')) :
    n = whole - part ∧ h' = h := by
  unfold minus at hm
  split at hm
  · cases hm
    exact ⟨rfl, rfl⟩
  · cases hm

theorem ok_byteAt {offset : Nat} {b : UInt8} {h' : Head}
    (hb : byteAt offset input h = some (.ok b, h')) : h' = h := by
  obtain ⟨a, k, hread, hb⟩ := ok_bind.mp hb
  cases hread
  cases hs : input.source[offset]? with
  | some b' =>
    rw [hs] at hb
    cases hb
    rfl
  | none =>
    rw [hs] at hb
    cases hb

/-- Stepping back does not lead forward. -/
theorem pos_le_of_backup {h' : Head} {u : Unit} (hb : backup input h = some (.ok u, h')) :
    h'.pos ≤ h.pos := by
  obtain ⟨a, k, hget, hb⟩ := ok_bind.mp hb
  cases hget
  obtain ⟨pos, k, hminus, hb⟩ := ok_bind.mp hb
  obtain ⟨rfl, rfl⟩ := ok_minus hminus
  split at hb
  · obtain ⟨b, k, hbyte, hb⟩ := ok_bind.mp hb
    obtain rfl := ok_byteAt hbyte
    split at hb
    · obtain ⟨line, k, hline, hb⟩ := ok_bind.mp hb
      obtain ⟨rfl, rfl⟩ := ok_minus hline
      cases hb
      exact Nat.sub_le ..
    · cases hb
      exact Nat.sub_le ..
  · cases hb
    exact Nat.sub_le ..

end Scanner

/-! ## Histories of a head -/

/-- Within the first rune no line starts, nor behind it, unless it is a line feed. -/
theorem Rune.lt_lineStart {source : List UInt8} {pos : Nat} {r : Rune} {rest : List Rune}
    (hread : read (source.drop pos) = r :: rest) (hr : r.char ≠ '\n') {start : Nat}
    (hs : start ∈ source.idxsOf 0x0A 1) (hpos : pos < start) : pos + r.width < start := by
  obtain ⟨start, rfl⟩ := Nat.exists_eq_add_of_lt hpos
  rw [mem_idxsOf_lineFeed] at hs
  by_contra hle
  obtain ⟨tail, hbytes, -⟩ := read_cons hread
  have hlt : start < r.bytes.length := by
    rw [Rune.width] at hle
    omega
  have hmem : 0x0A ∈ r.bytes := by
    rw [← List.getElem?_drop, hbytes, List.getElem?_append_left hlt] at hs
    exact List.mem_of_getElem? hs
  have hhigh (b : UInt8) (hb : r = stray b) : 0x80 ≤ b.toNat := by
    have hstray : stray b ∈ read (source.drop pos) := by rw [hread, hb]; exact List.mem_cons_self
    exact stray_high hstray
  exact hr (Char.toNat_inj.mp (char_of_mem_bytes hhigh hmem (by decide)).2)

theorem Rune.width_le {bytes : List UInt8} {r : Rune} {rest : List Rune} (hread : read bytes = r :: rest) :
    r.width ≤ bytes.length := by
  obtain ⟨tail, hbytes, -⟩ := read_cons hread
  rw [hbytes, List.length_append]
  exact Nat.le_add_right ..

/-- A document that has been read up to a rune or beyond, and notes the line behind the rune if the rune is a
line feed, has been read up to some further place. -/
theorem Document.exists_readLines_rune (doc : Document) {source : List UInt8} {pos seen : Nat} {r : Rune}
    {rest : List Rune} (hread : Rune.read (source.drop pos) = r :: rest) (hpos : pos ≤ seen) :
    ∃ further, seen ≤ further ∧ pos + r.width ≤ further ∧ further ≤ max seen (pos + r.width) ∧
      (if r.char = '\n' then (doc.readLines source seen).noteLine (pos + r.width)
        else doc.readLines source seen) = doc.readLines source further := by
  by_cases hr : r.char = '\n'
  · obtain ⟨tail, hbytes, -⟩ := Rune.read_cons hread
    have hwidth : r.width = 1 := by rw [Rune.width, Rune.bytes_eq_lineFeed hr]; rfl
    have hbyte : source[pos]? = some 0x0A := by
      rw [← Nat.add_zero pos, ← List.getElem?_drop, hbytes, Rune.bytes_eq_lineFeed hr]
      rfl
    rw [if_pos hr, hwidth]
    rcases Nat.lt_or_ge pos seen with hknown | hnew
    · -- the line feed is taken again
      refine ⟨seen, Nat.le_refl _, hknown, Nat.le_max_left .., ?_⟩
      exact noteLine_readLines (mem_idxsOf_lineFeed.mpr hbyte) hknown
    · obtain rfl := Nat.le_antisymm hpos hnew
      exact ⟨_, Nat.le_succ _, Nat.le_refl _, Nat.le_max_right .., (readLines_succ hbyte).symm⟩
  · -- no line starts within the rune or behind it, so that nothing is there to be noted
    refine ⟨_, Nat.le_max_left .., Nat.le_max_right .., Nat.le_refl _, ?_⟩
    rw [if_neg hr]
    refine (readLines_congr (Nat.le_max_left ..) fun start hs hle => ?_).symm
    by_contra hgt
    have hbehind := Rune.lt_lineStart hread hr hs (by omega)
    omega

namespace Scribe

variable {doc : Document} {source : List UInt8} {s t : Scribe} {seen : Nat}

/-- The head has come no further than `seen`, and the document knows the lines up to there behind those
that it had known. -/
structure Noted (doc : Document) (source : List UInt8) (seen : Nat) (s : Scribe) : Prop where
  pos : s.head.pos ≤ seen
  inside : seen ≤ source.length
  lines : s.doc = doc.readLines source seen

theorem move_next_of_length_le (hend : source.length ≤ s.head.pos) :
    s.move source .next = some { s with head := { s.head with width := 0 } } := by
  have hnext : Scanner.next ⟨s.doc, source, {}, 0⟩ s.head = _ := Scanner.next_of_length_le hend
  rw [move, hnext]
  rfl

theorem move_next_of_read {r : Rune} {rest : List Rune} (hend : s.head.pos < source.length)
    (hread : Rune.read (source.drop s.head.pos) = r :: rest) :
    ∃ head, head.pos = s.head.pos + r.width ∧ s.move source .next =
      some ⟨head, if r.char = '\n' then s.doc.noteLine (s.head.pos + r.width) else s.doc⟩ := by
  have hnext : Scanner.next ⟨s.doc, source, {}, 0⟩ s.head = _ := Scanner.next_of_read hend hread
  rw [move, hnext]
  simp only [Option.some.injEq]
  exact ⟨_, rfl, rfl⟩

theorem noted_next (h : s.Noted doc source seen) (hm : s.move source .next = some t) :
    ∃ further, seen ≤ further ∧ t.Noted doc source further := by
  obtain ⟨hpos, hinside, hlines⟩ := h
  rcases Nat.lt_or_ge s.head.pos source.length with hlt | hge
  · cases hread : Rune.read (source.drop s.head.pos) with
    | nil =>
      have hnil := Rune.read_eq_nil hread
      rw [List.drop_eq_nil_iff] at hnil
      exact absurd hlt (Nat.not_lt.mpr hnil)
    | cons r rest =>
      obtain ⟨head, hhead, hmove⟩ := move_next_of_read hlt hread
      obtain rfl := Option.some.inj (hmove.symm.trans hm)
      have hwidth := Rune.width_le hread
      rw [List.length_drop] at hwidth
      obtain ⟨further, hle, hwithin, hmax, hnoted⟩ := doc.exists_readLines_rune hread hpos
      rw [← hlines] at hnoted
      exact ⟨further, hle, Nat.le_trans (Nat.le_of_eq hhead) hwithin, by omega, hnoted⟩
  · obtain rfl := Option.some.inj ((move_next_of_length_le hge).symm.trans hm)
    exact ⟨seen, Nat.le_refl _, hpos, hinside, hlines⟩

theorem noted_backup (h : s.Noted doc source seen) (hm : s.move source .backup = some t) :
    t.Noted doc source seen := by
  simp only [move] at hm
  split at hm
  · rename_i hb
    cases hm
    exact ⟨Nat.le_trans (Scanner.pos_le_of_backup hb) h.pos, h.inside, h.lines⟩
  · cases hm

theorem noted_move {m : Motion} (h : s.Noted doc source seen) (hm : s.move source m = some t) :
    ∃ further, seen ≤ further ∧ t.Noted doc source further := by
  cases m with
  | next => exact noted_next h hm
  | backup => exact ⟨seen, Nat.le_refl _, noted_backup h hm⟩

theorem noted_run {motions : List Motion} (h : s.Noted doc source seen)
    (hm : s.run source motions = some t) : ∃ further, seen ≤ further ∧ t.Noted doc source further := by
  induction motions generalizing s seen with
  | nil =>
    cases hm
    exact ⟨seen, Nat.le_refl _, h⟩
  | cons m motions ih =>
    obtain ⟨u, hu, ht⟩ := Option.bind_eq_some_iff.mp hm
    obtain ⟨further, hle, hnoted⟩ := noted_move h hu
    obtain ⟨last, hle', hnoted'⟩ := ih hnoted ht
    exact ⟨last, Nat.le_trans hle hle', hnoted'⟩

theorem noted_start (doc : Document) (source : List UInt8) : (start doc).Noted doc source 0 :=
  ⟨Nat.le_refl 0, Nat.zero_le _, rfl⟩

end Scribe

/-! ## Documents -/

namespace Document

variable {doc after : Document} {source : List UInt8} {mode : Mode} {items : List Item}

/-- A scan that comes to the end of its source has read all of it. -/
theorem length_le_seen (h : doc.scan source mode = .ok (items, after))
    (hend : items.getLast?.map (·.kind) = some .eof) :
    source.length = doc.size ∧ source.length ≤ (Trace.ofSource mode source).seen := by
  obtain ⟨rfl, stop, line, hterminal⟩ := trace_of_scan h hend
  have hseen := (State.initial source).start_le_seen mode
  have hlast : ((State.initial source).trace mode).terminal = .eof stop line := hterminal
  rw [hlast] at hseen
  obtain ⟨rfl, -⟩ := Trace.end_of_source hterminal
  refine ⟨?_, hseen⟩
  by_contra hne
  rw [scan, if_neg hne] at h
  cases h

/-- A scan that comes to the end of its source leaves the lines of the source behind those that had been
known; a document of which nothing had been noted gets the table of the whole text. A second scan finds the
same and adds nothing. The same table is left by every history of a head that has come to the end. -/
theorem scan_lines (h : doc.scan source mode = .ok (items, after))
    (hend : items.getLast?.map (·.kind) = some .eof) :
    after.lines = doc.lines ++ (lineStarts source).filter (fun s => doc.lines.getLast?.all (· < s)) ∧
      (doc.lines = LineTable.fresh → after = doc.withLinesOf source) ∧
      after.scan source mode = .ok (items, after) ∧
      ∀ motions s, (Scribe.start doc).run source motions = some s → s.head.pos = source.length →
        s.doc = after := by
  obtain ⟨hsize, hseen⟩ := length_le_seen h hend
  rw [scan_of_size doc hsize, readLines_of_length_le hseen] at h
  obtain ⟨rfl, rfl⟩ : _ = items ∧ _ = after := by simpa using h
  have hlines := lines_readLines_length hsize
  refine ⟨hlines, ?_, ?_, ?_⟩
  · intro hfresh
    have hpositive : ∀ s ∈ lineStarts source, LineTable.fresh.getLast?.all (· < s) = true := by
      intro s hs
      exact decide_eq_true (List.ge_of_mem_idxsOf s (List.mem_of_mem_filter hs))
    rw [hfresh, List.filter_eq_self.mpr hpositive] at hlines
    calc doc.readLines source source.length
        = { doc with lines := (doc.readLines source source.length).lines } := rfl
      _ = doc.withLinesOf source := by rw [hlines, withLinesOf, LineTable.ofContent_eq]; rfl
  · rw [scan_of_size (doc.readLines source source.length) hsize, readLines_of_length_le hseen,
      readLines_readLines]
    rfl
  · intro motions s hrun hpos
    obtain ⟨further, -, hnoted⟩ := Scribe.noted_run (Scribe.noted_start doc source) hrun
    rw [hnoted.lines]
    exact readLines_of_length_le (hpos ▸ hnoted.pos) doc

/-- The document knew a line that the source does not have. A head that steps back now and then leaves the
same table. -/
theorem scan_lines_known :
    let doc : Document := { name := "a", base := 1, size := 11, lines := [0, 3] }
    let source := "scalar A\n\n\n".toUTF8.data.toList
    let motions := List.replicate 9 .next ++ [.backup, .next, .next, .next]
    ∃ items after, doc.scan source {} = .ok (items, after) ∧
      items.getLast?.map (·.kind) = some .eof ∧ after.lines = [0, 3, 9, 10] ∧
      (after.lines = doc.lines ++
          (lineStarts source).filter (fun s => doc.lines.getLast?.all (· < s)) ∧
        (doc.lines = LineTable.fresh → after = doc.withLinesOf source) ∧
        after.scan source {} = .ok (items, after) ∧
        ∀ motions s, (Scribe.start doc).run source motions = some s → s.head.pos = source.length →
          s.doc = after) ∧
      ((Scribe.start doc).run source motions).any (·.head.pos = source.length) = true := by
  intro doc source motions
  have hscan : doc.scan source {} = .ok ((Trace.ofSource {} source).items 1, _) := if_pos (by decide +kernel)
  have hend : ((Trace.ofSource {} source).items 1).getLast?.map (·.kind) = some .eof := by
    decide +kernel
  exact ⟨_, _, hscan, hend, by decide +kernel, scan_lines hscan hend, by decide +kernel⟩

end Document

end SchemaScan
