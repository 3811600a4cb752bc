import SchemaScan.Proofs.Scan.Passage
import Mathlib.Data.List.Forall2

/-! # Spans of items

The items of a document lie in its source one after the other. What an item says about itself can be
read off its span: its position, its text, its line, and for the last item where the source ends.
-/
namespace SchemaScan

/-- A token as a stretch of all the runes of a source. -/
structure Lexeme.LiesIn (l : Lexeme) (all : List Rune) : Prop where
  split : ∃ before after, all = before ++ l.runes ++ after ∧ l.start = Rune.span before ∧
    l.line = 1 + Rune.lineFeeds (before ++ l.runes)
  nonempty : l.runes ≠ []
  kind : l.kind.isTerminal = false

/-- Where a token ends. -/
def Lexeme.stop (l : Lexeme) : Nat := l.start + Rune.span l.runes

namespace Passage

/-- The tokens of a passage lie in the source. -/
theorem liesIn {all before : List Rune} {c d : Cursor} {found : List Lexeme}
    (h : Passage c found d) (hc : (Cursor.start all).Crosses before c) :
    ∀ l ∈ found, l.LiesIn all := by
  induction h generalizing before with
  | gap _ => simp
  | @token c d e f dropped l found hd hl _ ih =>
    have hbefore := hc.trans hd
    have hafter := hbefore.trans hl.crosses
    intro k hk
    rcases List.mem_cons.mp hk with rfl | hk
    · refine ⟨⟨before ++ dropped, e.rest, hafter.rest, ?_, ?_⟩, hl.nonempty, hl.kind⟩
      · rw [hl.start, hbefore.offset]
        exact Nat.zero_add _
      · rw [hl.line, hafter.line]
        rfl
    · exact ih hafter k hk

/-- The tokens of a passage lie between its ends and do not overlap. -/
theorem ordered {c d : Cursor} {found : List Lexeme} (h : Passage c found d) :
    (∀ l ∈ found, c.offset ≤ l.start ∧ l.stop ≤ d.offset) ∧
      found.Pairwise fun k l => k.stop ≤ l.start := by
  induction h with
  | gap _ => simp
  | @token c d e f dropped l found hd hl hf ih =>
    obtain ⟨hrange, hpairs⟩ := ih
    have hstart : c.offset ≤ l.start := hl.start ▸ hd.offset_le
    have hstop : l.stop = e.offset := by rw [Lexeme.stop, hl.crosses.offset, hl.start]
    obtain ⟨taken, ht⟩ := hf.crosses
    have hef := ht.offset_le
    constructor
    · intro k hk
      rcases List.mem_cons.mp hk with rfl | hk
      · exact ⟨hstart, by omega⟩
      · have := hrange k hk
        have : l.start ≤ l.stop := Nat.le_add_right ..
        omega
    · refine List.pairwise_cons.mpr ⟨?_, hpairs⟩
      intro k hk
      have := hrange k hk
      omega

end Passage

/-- The scan of a source starts behind a byte-order mark or at the very start. -/
theorem State.initial_crosses (source : List UInt8) :
    ∃ before, (Cursor.start (Rune.read source)).Crosses before (State.initial source).cursor := by
  simp only [State.initial]
  split
  · exact ⟨_, .next _⟩
  · exact ⟨[], .refl _⟩

/-! ## Items -/

/-- The item stands for the bytes from `start` to `stop` in the source of the document with the
given base. -/
structure Item.Spans (base : Nat) (source : List UInt8) (item : Item) (start stop : Nat) :
    Prop where
  ordered : start ≤ stop
  inside : stop ≤ source.length
  pos : item.pos = base + start
  text : item.kind ≠ .error → item.text = Utf8.lossy ((source.take stop).drop start)
  line : item.kind ≠ .error → item.line = 1 + (source.take stop).count 0x0A
  nonempty : item.isTerminal = false → start < stop
  atEnd : item.kind = .eof → start = source.length ∧ stop = source.length ∧ item.text = ""

/-- The bytes under a stretch of the runes of a source. -/
theorem Rune.slice_of_split {source : List UInt8} {before taken after : List Rune}
    (h : read source = before ++ taken ++ after) :
    (source.take (span before + span taken)).drop (span before) = taken.flatMap bytes ∧
      span before + span taken ≤ source.length ∧
      (source.take (span before + span taken)).count 0x0A = lineFeeds (before ++ taken) := by
  have hs : source = (before ++ taken).flatMap bytes ++ after.flatMap bytes := by
    rw [← List.flatMap_append, ← h, flatMap_bytes_read]
  have hlen : ((before ++ taken).flatMap bytes).length = span before + span taken := by
    rw [length_flatMap_bytes, span_append]
  have htake : source.take (span before + span taken) = (before ++ taken).flatMap bytes := by
    rw [hs, ← hlen, List.take_left]
  refine ⟨?_, ?_, ?_⟩
  · rw [htake, List.flatMap_append, ← length_flatMap_bytes before, List.drop_left]
  · rw [← hlen, hs, List.length_append]
    omega
  · rw [htake, lineFeeds_eq_count]
    intro b hb
    refine stray_high (?_ : stray b ∈ read source)
    rw [h]
    exact List.mem_append_left _ hb

theorem Lexeme.LiesIn.spans {source : List UInt8} {l : Lexeme} (h : l.LiesIn (Rune.read source))
    (base : Nat) : (l.item base).Spans base source l.start l.stop := by
  obtain ⟨⟨before, after, hall, hstart, hline⟩, hne, hk⟩ := h
  obtain ⟨hslice, hinside, hcount⟩ := Rune.slice_of_split hall
  have hpos := Rune.span_pos hne
  refine ⟨Nat.le_add_right .., ?_, rfl, ?_, ?_, ?_, ?_⟩
  · rwa [Lexeme.stop, hstart]
  · intro _
    rw [Lexeme.stop, hstart, hslice]
    rfl
  · intro _
    rw [Lexeme.stop, hstart, hcount]
    exact hline
  · intro _
    rw [Lexeme.stop]
    omega
  · intro he
    rw [show (l.item base).kind = l.kind from rfl] at he
    rw [he] at hk
    cases hk

/-- The last item stands at the end of the source, or where the fault starts. -/
theorem Terminal.Closes.spans {source : List UInt8} {before : List Rune} {c d : Cursor}
    {terminal : Terminal} (hc : (Cursor.start (Rune.read source)).Crosses before c)
    (h : terminal.Closes c d) (base : Nat) :
    (terminal.item base).Spans base source c.offset c.offset := by
  have hall : Rune.read source = before ++ [] ++ c.rest := by
    rw [List.append_nil]
    exact hc.rest
  have hoffset : c.offset = Rune.span before + Rune.span [] := by
    rw [hc.offset]
    exact Nat.zero_add _
  obtain ⟨-, hinside, hcount⟩ := Rune.slice_of_split hall
  rw [← hoffset] at hinside hcount
  have hempty : (source.take c.offset).drop c.offset = [] := by
    rw [List.drop_eq_nil_iff, List.length_take]
    omega
  cases terminal with
  | eof start line =>
    obtain ⟨hrest, rfl, rfl⟩ := h
    have hend : c.offset = source.length := by
      have hs := congrArg (Rune.span ·) hall
      have hbytes := Rune.length_flatMap_bytes (Rune.read source)
      rw [Rune.flatMap_bytes_read] at hbytes
      simp only [Rune.span_append, hrest, Rune.span_nil] at hs
      rw [Rune.span_nil] at hoffset
      omega
    refine ⟨Nat.le_refl _, hinside, rfl, ?_, ?_, ?_, ?_⟩
    · intro _
      rw [hempty, Utf8.lossy, Utf8.lossyChars]
      rfl
    · intro _
      rw [hcount, List.append_nil]
      exact hc.line
    · intro hn
      cases hn
    · intro _
      exact ⟨hend, hend, rfl⟩
  | fault f start line =>
    obtain ⟨rfl, -⟩ := h
    refine ⟨Nat.le_refl _, hinside, rfl, ?_, ?_, ?_, ?_⟩
    · intro hn
      exact absurd rfl hn
    · intro hn
      exact absurd rfl hn
    · intro hn
      cases hn
    · intro hn
      cases hn

/-- Where a scan says that it has ended. -/
def Terminal.start : Terminal → Nat
  | eof start _ | fault _ start _ => start

/-- The last item says whether the scan has reached the end of the source. -/
theorem Trace.last_item_eq_eof {t : Trace} {base : Nat} :
    (t.items base).getLast?.map (·.kind) = some .eof ↔ ∃ stop line, t.terminal = .eof stop line := by
  rw [items, List.getLast?_concat, Option.map_some, Option.some.injEq]
  cases t.terminal with
  | eof stop line => exact ⟨fun _ => ⟨stop, line, rfl⟩, fun _ => rfl⟩
  | fault f stop line =>
    constructor
    · intro h
      cases h
    · rintro ⟨_, _, h⟩
      cases h

/-- Where the items of a trace lie. -/
def Trace.spans (t : Trace) : List (Nat × Nat) :=
  t.lexemes.map (fun l => (l.start, l.stop)) ++ [(t.terminal.start, t.terminal.start)]

/-- The items of a source have their spans in it, in the order of the items and without overlaps. -/
theorem Trace.items_spans (mode : Mode) (source : List UInt8) (base : Nat) :
    List.Forall₂ (fun item span => item.Spans base source span.1 span.2)
        ((ofSource mode source).items base) (ofSource mode source).spans ∧
      (ofSource mode source).spans.Pairwise fun a b => a.2 ≤ b.1 := by
  obtain ⟨before, hinit⟩ := State.initial_crosses source
  obtain ⟨c, d, hp, hclose, -⟩ := (State.initial source).trace_passage mode
  obtain ⟨taken, ht⟩ := hp.crosses
  have hlies := hp.liesIn hinit
  obtain ⟨hrange, hpairs⟩ := hp.ordered
  have hlast : (ofSource mode source).terminal.start = c.offset := by
    change ((State.initial source).trace mode).terminal.start = c.offset
    revert hclose
    cases ((State.initial source).trace mode).terminal with
    | eof start line => exact fun h => h.2.1
    | fault f start line => exact fun h => h.1
  rw [spans, hlast]
  constructor
  · refine List.rel_append ?_ (.cons (hclose.spans (hinit.trans ht) base) .nil)
    rw [List.forall₂_map_left_iff, List.forall₂_map_right_iff, List.forall₂_same]
    intro l hl
    exact (hlies l hl).spans base
  · rw [List.pairwise_append]
    refine ⟨?_, List.pairwise_singleton .., ?_⟩
    · rw [List.pairwise_map]
      exact hpairs
    · intro a ha b hb
      obtain ⟨l, hl, rfl⟩ := List.mem_map.mp ha
      rw [List.mem_singleton] at hb
      subst hb
      exact (hrange l hl).2

/-- A scan that comes to the end of its source has counted its bytes and its line feeds. -/
theorem Trace.end_of_source {mode : Mode} {source : List UInt8} {stop line : Nat}
    (h : (ofSource mode source).terminal = .eof stop line) :
    stop = source.length ∧ line = source.count 0x0A + 1 := by
  obtain ⟨before, hinit⟩ := State.initial_crosses source
  obtain ⟨c, d, hp, hclose, -⟩ := (State.initial source).trace_passage mode
  obtain ⟨taken, ht⟩ := hp.crosses
  have hspans := hclose.spans (hinit.trans ht) 0
  have hsame : ((State.initial source).trace mode).terminal = .eof stop line := h
  rw [hsame] at hspans hclose
  obtain ⟨hstop, -, -⟩ := hspans.atEnd rfl
  obtain ⟨-, rfl, -⟩ := hclose
  have hline := hspans.line (by simp [Terminal.item])
  rw [hstop, List.take_length, Nat.add_comm] at hline
  exact ⟨hstop, hline⟩

/-- Every item of a document has its span in the source, in the order of the items and without
overlaps. -/
theorem Document.scan_spans {doc : Document} {source : List UInt8}
    (h : source.length = doc.size) (mode : Mode) :
    ∃ items after, doc.scan source mode = .ok (items, after) ∧
      ∃ spans : List (Nat × Nat),
        List.Forall₂ (fun item span => item.Spans doc.base source span.1 span.2) items spans ∧
        spans.Pairwise fun a b => a.2 ≤ b.1 := by
  obtain ⟨hspans, hpairs⟩ := Trace.items_spans mode source doc.base
  exact ⟨_, _, by rw [Document.scan, if_pos h], _, hspans, hpairs⟩

theorem Document.scan_spans_scalar :
    [0x74, 0x79, 0x70, 0x65, 0x0A, 0xC3].length = ({ name := "a", base := 7, size := 6 } : Document).size ∧
      ∃ items after, ({ name := "a", base := 7, size := 6 } : Document).scan
          [0x74, 0x79, 0x70, 0x65, 0x0A, 0xC3] {} = .ok (items, after) ∧
        ∃ spans : List (Nat × Nat),
          List.Forall₂ (fun item span =>
            item.Spans 7 [0x74, 0x79, 0x70, 0x65, 0x0A, 0xC3] span.1 span.2) items spans ∧
          spans.Pairwise fun a b => a.2 ≤ b.1 :=
  ⟨rfl, Document.scan_spans rfl {}⟩

end SchemaScan
