import SchemaScan.Proofs.Schema.Definitions
import SchemaScan.Proofs.Schema.Source

/-! # Scanning documents

At the top level the stack of goals is empty, and each entry puts one goal on it. A document is
scanned entry by entry up to the end of its source, so the scan finds exactly the tokens that were
written.
-/
namespace SchemaScan.Schema

open Piece

variable {mode : Mode} {next : Option Char} {ps qs : List Piece}

/-- At the top level the pieces are read in front of the character `next`. -/
def ReadsTop (mode : Mode) (ps : List Piece) (next : Option Char) : Prop :=
  ∀ (c : Cursor) (tail : List Rune), c.rest = allRunes ps ++ tail →
    tail.head?.map Rune.char = next →
    ∃ d, c.Crosses (allRunes ps) d ∧
      State.Leads mode ⟨c, []⟩ (lexemes c.offset c.line ps) ⟨d, []⟩

namespace ReadsTop

theorem nil : ReadsTop mode [] next := by
  intro c tail _ _
  exact ⟨c, .refl c, .refl _⟩

theorem trans (h : ReadsTop mode ps (front qs next)) (h' : ReadsTop mode qs next) :
    ReadsTop mode (ps ++ qs) next := by
  intro c tail hc ht
  rw [allRunes_append, List.append_assoc] at hc
  obtain ⟨d, hd, hleads⟩ := h c _ hc (by rw [front_tail, ht])
  obtain ⟨e, he, hleads'⟩ := h' d tail (Reads.rest_eq hc hd) ht
  refine ⟨e, ?_, ?_⟩
  · rw [allRunes_append]
    exact hd.trans he
  · rw [lexemes_append, ← hd.offset, ← hd.line]
    exact hleads.trans hleads'

/-- The next character puts a goal on the empty stack. -/
theorem of_goal {g : Goal}
    (hstep : ∀ c : Cursor, c.peek = front ps next →
      State.step mode ⟨c, []⟩ = State.step mode ⟨c.look, [g]⟩)
    (h : Reads mode [g] ps [] next) : ReadsTop mode ps next := by
  intro c tail hc ht
  obtain ⟨d, hd, hleads⟩ := h c.look tail hc ht
  refine ⟨d, hd.of_look, ?_⟩
  exact (State.Leads.of_step_eq (hstep c (Reads.peek_eq hc ht))).trans (hleads [])

theorem lineBreak (hnext : next.any isSpace = false) : ReadsTop mode [Piece.lineBreak] next := by
  intro c tail hc ht
  rw [← ht] at hnext
  have hskip : c.look.Crosses [.scalar '\n'] (c.look.skip isSpace) :=
    @Reads.skip_gap c.look isSpace ['\n'] tail hc (by decide) hnext
  refine ⟨_, hskip.of_look, ?_⟩
  apply State.Leads.of_next
  have hpeek : c.peek = some '\n' := by
    rw [Cursor.peek, hc]
    rfl
  have hspace : isSpace '\n' = true := rfl
  have hnone : lexemes c.offset c.line [Piece.lineBreak] = [] := rfl
  simp [State.step, Step.topLevel, hpeek, hspace, hnone]

/-! ## Entries -/

/-- The character starts a definition or a string. -/
structure StartsEntry (x : Char) : Prop where
  notSpace : isSpace x = false
  notComment : x ≠ '#'
  notMark : x ≠ byteOrderMark

/-- A definition starts with a letter. -/
theorem front_definition (d : Definition) (next : Option Char) :
    ∃ x, front d.pieces next = some x ∧ StartsEntry x ∧ isNameStart x = true ∧ x ≠ '"' := by
  have hword (k : Keyword) :
      ∃ x, k.spelling.toList.head? = some x ∧ StartsEntry x ∧ isNameStart x = true ∧ x ≠ '"' := by
    cases k <;> exact ⟨_, rfl, ⟨by decide, by decide, by decide⟩, by decide, by decide⟩
  cases d with
  | importPath path => exact hword .imports
  | importPaths paths => exact hword .imports
  | scalar n ds => exact hword .scalar
  | schema ds ms => exact hword .schema
  | type w n is ds ms =>
    cases w with
    | type => exact hword .type
    | interface => exact hword .interface
    | input => exact hword .input
    | enum => exact hword .enum
  | union n ds first others => exact hword .union
  | directive n arguments first others => exact hword .directive
  | extend d => exact hword .extend

theorem front_entry (e : Entry) (next : Option Char) :
    ∃ x, front e.pieces next = some x ∧ StartsEntry x := by
  cases e with
  | string s => exact ⟨'"', front_string .., ⟨rfl, by decide, by decide⟩⟩
  | definition d =>
    obtain ⟨x, hx, hstarts, -⟩ := front_definition d next
    exact ⟨x, hx, hstarts⟩

theorem front_document (entries : List Entry) :
    front (document entries) none = none ∨
      ∃ x, front (document entries) none = some x ∧ StartsEntry x := by
  cases entries with
  | nil => exact .inl rfl
  | cons e entries =>
    have hfront : front (document (e :: entries)) none = front e.pieces (some '\n') := by
      simp [document, lines]
    rw [hfront]
    exact .inr (front_entry e _)

theorem entry (e : Entry) : ReadsTop mode e.pieces (some '\n') := by
  cases e with
  | string s =>
    refine of_goal ?_ (Reads.string .value s rfl)
    intro c hc
    rw [Entry.pieces.eq_def] at hc
    have hpeek : c.peek = some '"' := hc.trans (front_string ..)
    have hspace : isSpace '"' = false := rfl
    simp [State.step, Step.topLevel, hpeek, hspace]
  | definition d =>
    refine of_goal ?_ (Reads.definition d)
    intro c hc
    obtain ⟨x, hx, ⟨hspace, hcomment, -⟩, hstart, hquote⟩ := front_definition d (some '\n')
    have hpeek : c.peek = some x := hc.trans hx
    simp [State.step, Step.topLevel, hpeek, hstart, hspace, hcomment, hquote]

theorem entries (es : List Entry) : ReadsTop mode (document es) none := by
  induction es with
  | nil => exact nil
  | cons e es ih =>
    have hbreak : ReadsTop mode [Piece.lineBreak] (front (document es) none) := by
      apply lineBreak
      rcases front_document es with h | ⟨x, h, hx⟩
      · rw [h]
        rfl
      · rw [h]
        exact hx.notSpace
    have := ((entry e).trans hbreak).trans ih
    simpa [document, lines] using this

end ReadsTop

/-- At the top level the scan ends with its source. -/
theorem step_at_end {c : Cursor} (h : c.rest = []) :
    State.step mode ⟨c, []⟩ = .halt (.eof c.offset c.line) c.look := by
  have hpeek : c.look.peek = none := by
    rw [Cursor.peek_look, Cursor.peek, h]
    rfl
  simp only [State.step, Step.topLevel, hpeek]
  rfl

/-- Pieces behind no byte-order mark are scanned from the first one on. -/
theorem initial_pieces {ps : List Piece} (hps : Readable ps)
    (hmark : front ps none ≠ some byteOrderMark) :
    State.initial ((allRunes ps).flatMap Rune.bytes) = ⟨Cursor.start (allRunes ps), []⟩ := by
  have hfront : (Cursor.start (allRunes ps)).peek = front ps none := by
    simp [Cursor.peek, Cursor.start, front]
  simp only [State.initial, read_pieces hps, hfront, if_neg hmark]

/-- The scan of pieces that are read at the top level finds their tokens and reaches the end. -/
theorem trace_pieces (mode : Mode) {ps : List Piece} (hps : Readable ps)
    (hmark : front ps none ≠ some byteOrderMark) (hread : ReadsTop mode ps none) :
    ∃ seen, Trace.ofSource mode ((allRunes ps).flatMap Rune.bytes) =
      ⟨lexemes 0 1 ps, .eof ((allRunes ps).flatMap Rune.bytes).length
        (1 + ((allRunes ps).flatMap Rune.bytes).count 0x0A), seen⟩ := by
  have hstart : (Cursor.start (allRunes ps)).rest = allRunes ps ++ [] := (List.append_nil _).symm
  obtain ⟨d, hd, hleads⟩ := hread _ [] hstart rfl
  have hrest : d.rest = [] := Reads.rest_eq hstart hd
  have hoffset : d.offset = ((allRunes ps).flatMap Rune.bytes).length := by
    rw [hd.offset, Rune.length_flatMap_bytes]
    exact Nat.zero_add _
  have hline : d.line = 1 + ((allRunes ps).flatMap Rune.bytes).count 0x0A := by
    have hhigh : ∀ b, .stray b ∈ allRunes ps → 0x80 ≤ b.toNat := by
      intro b hb
      rw [← read_pieces hps] at hb
      exact Rune.stray_high hb
    rw [hd.line, Rune.lineFeeds_eq_count hhigh]
    rfl
  refine ⟨d.look.seen, ?_⟩
  rw [Trace.ofSource, initial_pieces hps hmark]
  refine Eq.trans hleads ?_
  rw [State.trace_of_halt (step_at_end hrest), hoffset, hline, List.append_nil]
  rfl

theorem trace_source (mode : Mode) (entries : List Entry) :
    ∃ seen, Trace.ofSource mode (source entries) =
      ⟨lexemes 0 1 (document entries),
        .eof (source entries).length (1 + (source entries).count 0x0A), seen⟩ := by
  have hmark : front (document entries) none ≠ some byteOrderMark := by
    rcases ReadsTop.front_document entries with h | ⟨x, h, hx⟩
    · rw [h]
      simp
    · rw [h]
      simpa using hx.notMark
  exact trace_pieces mode (readable_document entries) hmark (ReadsTop.entries entries)

end Schema

/-- The scan of a document finds exactly the tokens that were written, and reaches the end. -/
theorem Document.scan_source (doc : Document) (entries : List Schema.Entry) (mode : Mode) :
    ∃ after, { doc with size := (Schema.source entries).length }.scan (Schema.source entries) mode =
      .ok ((Schema.Piece.lexemes 0 1 (Schema.document entries)).map (·.item doc.base) ++
        [⟨.eof, doc.base + (Schema.source entries).length, "",
          1 + (Schema.source entries).count 0x0A⟩], after) := by
  obtain ⟨seen, htrace⟩ := Schema.trace_source mode entries
  exact ⟨_, by rw [scan, if_pos rfl, htrace]; rfl⟩

end SchemaScan
