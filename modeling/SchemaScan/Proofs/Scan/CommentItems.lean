import SchemaScan.Proofs.Scan.Gaps

/-! # Comments as items

A scan that is asked for comments reports each of them as an item, except those behind an element of a
series that ends with a closing mark. A number sign outside the items stands in such a comment.
-/
namespace SchemaScan

/-- The scan of the source comes to a comment behind an element of a series that ends with a closing mark,
and the byte at the offset lies on the line of this comment. -/
def InDroppedComment (source : List UInt8) (mode : Mode) (offset : Nat) : Prop :=
  ∃ t, (State.initial source).Visits mode t ∧ t.isBehindElement = true ∧
    t.cursor.peek = some '#' ∧ t.cursor.offset ≤ offset ∧
    0x0D ∉ (source.take offset).drop t.cursor.offset ∧
    0x0A ∉ (source.take offset).drop t.cursor.offset

/-! ## From the gaps to the comments -/

/-- Number signs in a stretch of bytes stand in comments that are left out. -/
def SignsDropped (source : List UInt8) (mode : Mode) (offset : Nat) (bytes : List UInt8) : Prop :=
  ∀ i, bytes[i]? = some 0x23 → InDroppedComment source mode (offset + i)

theorem joinable_signsDropped (source : List UInt8) (mode : Mode) :
    Joinable (SignsDropped source mode) := by
  constructor
  · intro n i hi
    cases hi
  · intro n a b ha hb i hi
    rw [List.getElem?_append] at hi
    split at hi
    · exact ha i hi
    · rename_i hle
      have := hb _ hi
      rwa [Nat.add_assoc, Nat.add_sub_cancel' (Nat.le_of_not_lt hle)] at this

theorem signsDropped_of_notMem {source bytes : List UInt8} {mode : Mode} {offset : Nat}
    (h : 0x23 ∉ bytes) : SignsDropped source mode offset bytes := by
  intro i hi
  exact absurd (List.mem_of_getElem? hi) h

theorem notMem_of_layout {rs : List Rune} (hhigh : ∀ b, .stray b ∈ rs → 0x80 ≤ b.toNat)
    (h : ∀ r ∈ rs, isSpace r.char = true) : 0x23 ∉ rs.flatMap Rune.bytes := by
  refine Rune.notMem_bytes (c := '#') hhigh (by decide) ?_
  intro r hr he
  have hspace := h r hr
  rw [he] at hspace
  exact absurd hspace (by decide)

/-- If comments are asked for, a step leaves out no number sign but those of dropped comments. -/
theorem State.Drops.signsDropped {s : State} {rs : List Rune} {d : Cursor} {source : List UInt8}
    (h : s.Drops ⟨true⟩ rs) (hv : (State.initial source).Visits ⟨true⟩ s)
    (hs : s.cursor.StandsIn source) (hx : s.cursor.Crosses rs d) :
    SignsDropped source ⟨true⟩ s.cursor.offset (rs.flatMap Rune.bytes) := by
  have hhigh := hs.stray_high hx
  cases h with
  | layout h => exact signsDropped_of_notMem (notMem_of_layout hhigh h)
  | @separator r h =>
    refine signsDropped_of_notMem (Rune.notMem_bytes (c := '#') hhigh (by decide) ?_)
    intro x hr he
    obtain rfl := List.mem_singleton.mp hr
    rw [he] at h
    exact absurd h (by decide)
  | unasked h hc hm => cases hm
  | behindElement hc hb =>
    intro i hi
    have hpeek : s.cursor.peek = some '#' := by
      obtain ⟨r, hr, hchar⟩ := Option.map_eq_some_iff.mp hc.1
      rw [Cursor.peek, hx.rest, List.head?_append, hr]
      exact congrArg some hchar
    have hline := Rune.notMem_of_line hhigh hc.2
    have hlt := (List.getElem?_eq_some_iff.mp hi).1
    have hslice : (source.take (s.cursor.offset + i)).drop s.cursor.offset =
        (rs.flatMap Rune.bytes).take i := by
      rw [Rune.length_flatMap_bytes] at hlt
      rw [← (hs.slice hx).1, hx.offset, List.drop_take, List.drop_take, List.take_take]
      congr 1
      omega
    refine ⟨s, hv, hb, hpeek, Nat.le_add_right .., ?_, ?_⟩
    · rw [hslice]
      exact fun hm => hline.1 (List.mem_of_mem_take hm)
    · rw [hslice]
      exact fun hm => hline.2 (List.mem_of_mem_take hm)

/-! ## From the comments to the gaps -/

/-- The byte in front of which a cursor stands. -/
theorem Cursor.StandsIn.getElem?_offset {c : Cursor} {source : List UInt8} (h : c.StandsIn source)
    {r : Rune} {rest : List Rune} (hr : c.rest = r :: rest) {b : UInt8} (hb : r.bytes = [b]) :
    source[c.offset]? = some b := by
  have hnext := Cursor.Crosses.next c
  rw [hr] at hnext
  have hslice := (h.slice hnext).1
  have hbytes : [r].flatMap Rune.bytes = [b] := by rw [List.flatMap_singleton, hb]
  have hfirst := congrArg (·[0]?) (hslice.trans hbytes)
  have hoffset : c.offset < c.next.offset := by
    rw [hnext.offset]
    have := Rune.span_pos (List.cons_ne_nil r [])
    exact Nat.lt_add_of_pos_right this
  simpa [List.getElem?_drop, List.getElem?_take, hoffset] using hfirst

/-- The line of a comment goes as far as the scan skips. -/
theorem Cursor.StandsIn.lt_offset_skip {c : Cursor} {source : List UInt8} (h : c.StandsIn source)
    {o : Nat} (hsign : source[o]? = some 0x23)
    (hcr : 0x0D ∉ (source.take o).drop c.offset) (hlf : 0x0A ∉ (source.take o).drop c.offset) :
    o < (c.skip (!isLineEnd ·)).offset := by
  have hskip := Cursor.Crosses.skip (!isLineEnd ·) c
  have hstands := h.crosses hskip
  have hle := hskip.offset_le
  refine Nat.lt_of_not_le fun hge => ?_
  -- the rune behind the comment ends the line, so the byte cannot lie behind it
  have hbyte (b : UInt8) (hb : source[(c.skip (!isLineEnd ·)).offset]? = some b) (hne : b ≠ 0x23) :
      b ∈ (source.take o).drop c.offset := by
    rcases Nat.eq_or_lt_of_le hge with he | hlt
    · rw [he, hsign] at hb
      exact absurd (Option.some.inj hb).symm hne
    · refine List.mem_of_getElem? (i := (c.skip (!isLineEnd ·)).offset - c.offset) ?_
      rw [List.getElem?_drop, Nat.add_sub_cancel' hle, List.getElem?_take, if_pos hlt, hb]
  cases hrest : (c.skip (!isLineEnd ·)).rest with
  | nil =>
    obtain ⟨before, hall, hb⟩ := hstands.read_eq (.refl _)
    have hspan := Rune.length_flatMap_bytes (Rune.read source)
    rw [Rune.flatMap_bytes_read, hall, hrest, List.append_nil, List.append_nil, ← hb] at hspan
    have := (List.getElem?_eq_some_iff.mp hsign).1
    omega
  | cons r rest =>
    have hline : isLineEnd r.char = true := by
      have hpeek := c.peek_skip (!isLineEnd ·)
      rw [Cursor.peek, hrest] at hpeek
      simpa using hpeek
    have hchar : r.char = '\r' ∨ r.char = '\n' := by simpa [isLineEnd] using hline
    rcases hchar with hchar | hchar
    · have hbytes := Rune.bytes_of_ascii (r := r) (by rw [hchar]; decide)
      rw [hchar] at hbytes
      exact hcr (hbyte _ (hstands.getElem?_offset hrest hbytes) (by decide))
    · have hbytes := Rune.bytes_of_ascii (r := r) (by rw [hchar]; decide)
      rw [hchar] at hbytes
      exact hlf (hbyte _ (hstands.getElem?_offset hrest hbytes) (by decide))

/-- Behind an element of a series that ends with a closing mark, a scan that reaches the end passes over a
comment. -/
theorem State.step_of_behindElement {t : State} {mode : Mode} (hb : t.isBehindElement = true)
    (hp : t.cursor.peek = some '#') (hk : Goal.AllKeep t.goals) {stop line : Nat}
    (hend : (t.trace mode).terminal = .eof stop line) :
    ∃ goals, t.step mode = .next [] ⟨t.cursor.look.skip (!isLineEnd ·), goals⟩ := by
  obtain ⟨c, series, fixed, goals, rfl, hline⟩ := exists_of_isBehindElement hb
  have hfixed : fixed ≠ some '#' := by
    intro hf
    have hmem := (Goal.allKeep_cons.mp hk).1 _ hf
    rcases Series.mem_separators hmem with h | h
    · exact absurd h (by decide)
    · exact absurd h (by decide)
  have hstep : State.step mode ⟨c, .separator series fixed :: goals⟩ = _ :=
    step_separator_comment hline hfixed hp
  by_cases hcomma : fixed = some ','
  · rw [if_pos hcomma] at hstep
    rw [trace_of_halt hstep] at hend
    cases hend
  · rw [if_neg hcomma] at hstep
    exact ⟨_, hstep⟩

/-! ## Documents -/

/-- A number sign in a dropped comment lies in no item. -/
theorem Trace.notMem_spans_of_dropped {source : List UInt8} {mode : Mode} {stop line o : Nat}
    (hend : (ofSource mode source).terminal = .eof stop line) (hsign : source[o]? = some 0x23)
    (h : InDroppedComment source mode o) :
    ∀ l ∈ (ofSource mode source).lexemes, ¬(l.start ≤ o ∧ o < l.stop) := by
  obtain ⟨t, hv, hb, hp, hle, hcr, hlf⟩ := h
  obtain ⟨found, hfound, hleads⟩ := hv.leads
  have hlexemes : (ofSource mode source).lexemes = found ++ (t.trace mode).lexemes :=
    congrArg Trace.lexemes hleads
  have htend : (t.trace mode).terminal = .eof stop line := by
    rw [← hend]
    exact (congrArg Trace.terminal hleads).symm
  obtain ⟨goals, hstep⟩ :=
    State.step_of_behindElement hb hp (hv.keeps (State.initial_keeps source)) htend
  obtain ⟨taken, ht⟩ := hfound.crosses
  have hstands : t.cursor.StandsIn source :=
    Cursor.StandsIn.crosses (State.initial_crosses source) ht
  have hskip := hstands.crosses (Cursor.Crosses.refl _).look |>.lt_offset_skip hsign hcr hlf
  obtain ⟨c, -, hrest, -⟩ := State.trace_passage mode
    ⟨t.cursor.look.skip (!isLineEnd ·), goals⟩
  rw [State.trace_of_next hstep, List.nil_append] at hlexemes
  intro l hl ⟨hlo, hol⟩
  rw [hlexemes] at hl
  rcases List.mem_append.mp hl with hl | hl
  · have := (hfound.ordered.1 l hl).2
    omega
  · have := (hrest.ordered.1 l hl).1
    exact absurd (Nat.lt_of_lt_of_le hskip this) (by omega)

/-- A scan that is asked for comments and reaches the end leaves a number sign outside its items exactly
if it comes to the comment behind an element of a series that ends with a closing mark. -/
theorem Document.scan_surfaces_comments {doc after : Document} {source : List UInt8}
    {items : List Item} (h : doc.scan source ⟨true⟩ = .ok (items, after))
    (hend : items.getLast?.map (·.kind) = some .eof) :
    ∃ spans : List (Nat × Nat),
      List.Forall₂ (fun item span => item.Spans doc.base source span.1 span.2) items spans ∧
      spans.Pairwise (fun a b => a.2 ≤ b.1) ∧
      ∀ o, source[o]? = some 0x23 →
        ((∀ span ∈ spans, ¬(span.1 ≤ o ∧ o < span.2)) ↔ InDroppedComment source ⟨true⟩ o) := by
  obtain ⟨rfl, stop, line, hterminal⟩ := Document.trace_of_scan h hend
  obtain ⟨hspans, hpairs⟩ := Trace.items_spans ⟨true⟩ source doc.base
  refine ⟨_, hspans, hpairs, ?_⟩
  intro o hsign
  obtain ⟨c, hc, hlast, rfl⟩ := Trace.ofSource_sifting (joinable_signsDropped source ⟨true⟩)
    (fun s rs d hv hs hx hd => hd.signsDropped hv hs hx) hterminal
  have hlen := (List.getElem?_eq_some_iff.mp hsign).1
  rw [Trace.spans, hterminal]
  constructor
  · intro houtside
    rcases Nat.lt_or_ge o (textStart source) with hmark | hstart
    · exact absurd (mem_of_lt_textStart hmark hsign) (by decide)
    · rw [← State.offset_initial] at hstart
      rcases hc.covers (State.initial_crosses source) hstart (by omega) with
        ⟨l, hl, ho⟩ | ⟨n, bytes, hn, hno, hbyte⟩
      · refine absurd ho (houtside (l.start, l.stop) (List.mem_append_left _ ?_))
        exact List.mem_map.mpr ⟨l, hl, rfl⟩
      · have := hn (o - n) (hbyte.trans hsign)
        rwa [Nat.add_sub_cancel' hno] at this
  · intro hdropped span hspan
    rcases List.mem_append.mp hspan with hspan | hspan
    · obtain ⟨l, hl, rfl⟩ := List.mem_map.mp hspan
      exact Trace.notMem_spans_of_dropped hterminal hsign hdropped l hl
    · obtain rfl := List.mem_singleton.mp hspan
      exact fun ho => absurd ho.1 (by simpa [Terminal.start] using hlen)

/-- Behind the element a number sign lies outside the items. -/
theorem Document.scan_surfaces_comments_imports :
    let source := "import (\"a\" #\n)".toUTF8.data.toList
    ∃ items after,
      ({ name := "a", base := 1, size := 15 } : Document).scan source ⟨true⟩ = .ok (items, after) ∧
      items.getLast?.map (·.kind) = some .eof ∧
      ∃ spans : List (Nat × Nat),
        List.Forall₂ (fun item span => item.Spans 1 source span.1 span.2) items spans ∧
        spans.Pairwise (fun a b => a.2 ≤ b.1) ∧
        ∀ o, source[o]? = some 0x23 →
          ((∀ span ∈ spans, ¬(span.1 ≤ o ∧ o < span.2)) ↔ InDroppedComment source ⟨true⟩ o) := by
  intro source
  have hscan : ({ name := "a", base := 1, size := 15 } : Document).scan source ⟨true⟩ =
      .ok ((Trace.ofSource ⟨true⟩ source).items 1, _) := if_pos (by decide +kernel)
  have hend : ((Trace.ofSource ⟨true⟩ source).items 1).getLast?.map (·.kind) = some .eof := by
    decide +kernel
  exact ⟨_, _, hscan, hend, Document.scan_surfaces_comments hscan hend⟩

/-- A number sign that lies outside all items, although the scan was asked for comments. -/
theorem Document.scan_drops_comment :
    let source := "import (\"a\" #\n)".toUTF8.data.toList
    let spans := [(0, 6), (7, 8), (8, 11), (14, 15), (15, 15)]
    ∃ items after,
      ({ name := "a", base := 1, size := 15 } : Document).scan source ⟨true⟩ = .ok (items, after) ∧
      items.getLast?.map (·.kind) = some .eof ∧
      List.Forall₂ (fun item span => item.Spans 1 source span.1 span.2) items spans ∧
      source[12]? = some 0x23 ∧ (∀ span ∈ spans, ¬(span.1 ≤ 12 ∧ 12 < span.2)) ∧
      ∀ item ∈ items, item.kind ≠ .comment := by
  intro source spans
  have hscan : ({ name := "a", base := 1, size := 15 } : Document).scan source ⟨true⟩ =
      .ok ((Trace.ofSource ⟨true⟩ source).items 1, _) := if_pos (by decide +kernel)
  have hspans : (Trace.ofSource ⟨true⟩ source).spans = spans := by decide +kernel
  obtain ⟨hitems, -⟩ := Trace.items_spans ⟨true⟩ source 1
  rw [hspans] at hitems
  refine ⟨_, _, hscan, ?_, hitems, ?_, ?_, ?_⟩
  · decide +kernel
  · decide +kernel
  · decide
  · decide +kernel

end SchemaScan
