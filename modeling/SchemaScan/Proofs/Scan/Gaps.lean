import SchemaScan.Proofs.Scan.Omissions

/-! # Gaps between items

The bytes of a source that lie in no item are those of layout, separators and comments. A byte-order
mark at the very start is left out of account.
-/
namespace SchemaScan

open Computability

/-! ## The bytes of a gap -/

namespace Gap

def layout : Language UInt8 := {w | ∃ b ∈ [0x20, 0x09, 0x0D, 0x0A], w = [b]}

/-- Comma, ampersand and vertical bar. -/
def separator : Language UInt8 := {w | ∃ b ∈ [0x2C, 0x26, 0x7C], w = [b]}

/-- A number sign, and bytes that end no line. -/
def comment : Language UInt8 := {w | ∃ text, w = 0x23 :: text ∧ 0x0D ∉ text ∧ 0x0A ∉ text}

def words : Language UInt8 := (layout + separator + comment)∗

theorem nil_mem_words : [] ∈ words := Language.nil_mem_kstar _

theorem append_mem_words {a b : List UInt8} (ha : a ∈ words) (hb : b ∈ words) : a ++ b ∈ words := by
  rw [words, ← kstar_mul_kstar]
  exact Language.append_mem_mul ha hb

theorem mem_words {w : List UInt8} (h : w ∈ layout + separator + comment) : w ∈ words :=
  (le_kstar : _ ≤ words) h

theorem joinable_words : Joinable fun _ bytes => bytes ∈ words :=
  ⟨fun _ => nil_mem_words, append_mem_words⟩

theorem bytes_mem_layout {r : Rune} (h : isSpace r.char = true) : r.bytes ∈ layout := by
  have hchar : r.char ∈ [' ', '\t', '\r', '\n'] := by
    simpa [isSpace, Bool.or_assoc] using h
  have hall : ∀ c ∈ [' ', '\t', '\r', '\n'],
      c.toNat < 0x80 ∧ UInt8.ofNat c.toNat ∈ [0x20, 0x09, 0x0D, 0x0A] := by
    intro c hc
    simp only [List.mem_cons, List.not_mem_nil, or_false] at hc
    rcases hc with rfl | rfl | rfl | rfl <;> decide
  obtain ⟨hascii, hbyte⟩ := hall _ hchar
  exact ⟨_, hbyte, Rune.bytes_of_ascii hascii⟩

theorem bytes_mem_separator {r : Rune} (h : r.char ∈ [',', '&', '|']) : r.bytes ∈ separator := by
  have hall : ∀ c ∈ [',', '&', '|'],
      c.toNat < 0x80 ∧ UInt8.ofNat c.toNat ∈ [0x2C, 0x26, 0x7C] := by
    intro c hc
    simp only [List.mem_cons, List.not_mem_nil, or_false] at hc
    rcases hc with rfl | rfl | rfl <;> decide
  obtain ⟨hascii, hbyte⟩ := hall _ h
  exact ⟨_, hbyte, Rune.bytes_of_ascii hascii⟩

end Gap

/-- Runes that end no line have no byte that does. -/
theorem Rune.notMem_of_line {rs : List Rune} (hhigh : ∀ b, stray b ∈ rs → 0x80 ≤ b.toNat)
    (h : ∀ r ∈ rs, isLineEnd r.char = false) :
    0x0D ∉ rs.flatMap bytes ∧ 0x0A ∉ rs.flatMap bytes := by
  have hne (c : Char) (hc : isLineEnd c = true) : ∀ r ∈ rs, r.char ≠ c := by
    rintro r hr rfl
    rw [h r hr] at hc
    cases hc
  exact ⟨notMem_bytes (c := '\r') hhigh (by decide) (hne _ rfl),
    notMem_bytes (c := '\n') hhigh (by decide) (hne _ rfl)⟩

/-- A comment starts with its number sign, and its line does not end in it. -/
theorem Rune.IsComment.bytes_eq {rs : List Rune} (h : IsComment rs)
    (hhigh : ∀ b, stray b ∈ rs → 0x80 ≤ b.toNat) :
    ∃ text, rs.flatMap bytes = 0x23 :: text ∧ 0x0D ∉ text ∧ 0x0A ∉ text := by
  obtain ⟨hhead, hline⟩ := h
  cases rs with
  | nil => cases hhead
  | cons r rs =>
    have hr : r.char = '#' := by simpa using hhead
    have hascii : r.char.toNat < 0x80 := by
      rw [hr]
      decide
    obtain ⟨hcr, hlf⟩ := Rune.notMem_of_line (fun b hb => hhigh b (List.mem_cons_of_mem _ hb))
      fun x hx => hline x (List.mem_cons_of_mem _ hx)
    refine ⟨rs.flatMap bytes, ?_, hcr, hlf⟩
    rw [List.flatMap_cons, bytes_of_ascii hascii, hr]
    rfl

/-- What a step may leave out is layout, a separator or a comment. -/
theorem State.Drops.mem_words {mode : Mode} {s : State} {rs : List Rune} (h : s.Drops mode rs)
    (hhigh : ∀ b, .stray b ∈ rs → 0x80 ≤ b.toNat) : rs.flatMap Rune.bytes ∈ Gap.words := by
  have hlayout {rs : List Rune} (h : ∀ r ∈ rs, isSpace r.char = true) :
      rs.flatMap Rune.bytes ∈ Gap.words := by
    induction rs with
    | nil => exact Gap.nil_mem_words
    | cons r rs ih =>
      obtain ⟨hr, hrs⟩ := List.forall_mem_cons.mp h
      exact Gap.append_mem_words (Gap.mem_words (.inl (.inl (Gap.bytes_mem_layout hr)))) (ih hrs)
  cases h with
  | layout h => exact hlayout h
  | separator h =>
    rw [List.flatMap_singleton]
    exact Gap.mem_words (.inl (.inr (Gap.bytes_mem_separator h)))
  | unasked h hc hm =>
    rw [List.flatMap_append]
    have hcomment := hc.bytes_eq fun b hb => hhigh b (List.mem_append_right _ hb)
    exact Gap.append_mem_words (hlayout h) (Gap.mem_words (.inr hcomment))
  | behindElement hc hb => exact Gap.mem_words (.inr (hc.bytes_eq hhigh))

/-! ## Gaps -/

/-- The stretches of a source, from an offset on, that lie outside the spans. -/
def outside (source : List UInt8) (offset : Nat) : List (Nat × Nat) → List (List UInt8)
  | [] => [source.drop offset]
  | span :: spans => (source.take span.1).drop offset :: outside source span.2 spans

example : outside [0x20, 0x61, 0x2C, 0x62] 0 [(1, 2), (3, 4)] = [[0x20], [0x2C], []] := by decide

/-- Where the text of a source starts: behind a byte-order mark, if there is one. -/
def textStart (source : List UInt8) : Nat :=
  if [0xEF, 0xBB, 0xBF].isPrefixOf source then 3 else 0

/-- In front of the text of a source there is nothing but the byte-order mark. -/
theorem mem_of_lt_textStart {source : List UInt8} {o : Nat} {b : UInt8} (h : o < textStart source)
    (hb : source[o]? = some b) : b ∈ [0xEF, 0xBB, 0xBF] := by
  unfold textStart at h
  split at h
  · rename_i hmark
    obtain ⟨tail, rfl⟩ := List.isPrefixOf_iff_prefix.mp hmark
    rw [List.getElem?_append_left h] at hb
    exact List.mem_of_getElem? hb
  · exact absurd h (Nat.not_lt_zero o)

/-- A source starts with a byte-order mark if its first rune is one. -/
theorem isPrefixOf_source_iff {source : List UInt8} :
    [0xEF, 0xBB, 0xBF].isPrefixOf source = true ↔
      (Cursor.start (Rune.read source)).peek = some byteOrderMark := by
  have hencode : String.utf8EncodeChar byteOrderMark = [0xEF, 0xBB, 0xBF] := by decide
  rw [List.isPrefixOf_iff_prefix, ← hencode]
  constructor
  · rintro ⟨tail, rfl⟩
    rw [Rune.read_encode_append]
    rfl
  · intro h
    obtain ⟨r, hr, hchar⟩ := Option.map_eq_some_iff.mp h
    obtain ⟨tail, htail⟩ := List.head?_eq_some_iff.mp hr
    have hsource := Rune.flatMap_bytes_read source
    rw [show Rune.read source = r :: tail from htail,
      Rune.eq_scalar_of_char hchar (by decide)] at hsource
    exact ⟨_, hsource⟩

theorem State.offset_initial (source : List UInt8) :
    (initial source).cursor.offset = textStart source := by
  have hnext (h : (Cursor.start (Rune.read source)).peek = some byteOrderMark) :
      (Cursor.start (Rune.read source)).next.offset = 3 := by
    obtain ⟨r, hr, hchar⟩ := Option.map_eq_some_iff.mp h
    obtain ⟨tail, htail⟩ := List.head?_eq_some_iff.mp hr
    rw [Cursor.next, htail, Rune.eq_scalar_of_char hchar (by decide)]
    rfl
  simp only [initial, textStart, isPrefixOf_source_iff]
  split
  · rename_i h
    exact hnext h
  · rfl

/-- What is left out between the tokens and up to the end lies outside their spans. -/
theorem Sifting.outside_mem {l : Language UInt8} {c d : Cursor} {found : List Lexeme}
    {source : List UInt8} (h : Sifting (fun _ bytes => bytes ∈ l) c found d)
    (hc : c.StandsIn source) (hd : d.offset = source.length) (hl : [] ∈ l) :
    ∀ gap ∈ outside source c.offset
      (found.map (fun l => (l.start, l.stop)) ++ [(source.length, source.length)]), gap ∈ l := by
  induction h with
  | gap hx hg =>
    rw [← (hc.slice hx).1, hd] at hg
    intro gap hgap
    simp only [List.map_nil, List.nil_append, SchemaScan.outside, List.mem_cons, List.not_mem_nil,
      or_false, List.drop_length] at hgap
    rcases hgap with rfl | rfl
    · exact hg
    · exact hl
  | @token c d e f dropped k found hx hg hk hs _ ih =>
    have hstop : k.stop = e.offset := by rw [Lexeme.stop, hs, hk.offset]
    rw [← (hc.slice hx).1, ← hs] at hg
    intro gap hgap
    rw [List.map_cons, List.cons_append, SchemaScan.outside, List.mem_cons, hstop] at hgap
    rcases hgap with rfl | hgap
    · exact hg
    · exact ih ((hc.crosses hx).crosses hk) hd gap hgap

/-- The items of a scan are those of its trace, which ends where the last item says. -/
theorem Document.trace_of_scan {doc after : Document} {source : List UInt8} {mode : Mode}
    {items : List Item} (h : doc.scan source mode = .ok (items, after))
    (hend : items.getLast?.map (·.kind) = some .eof) :
    items = (Trace.ofSource mode source).items doc.base ∧
      ∃ stop line, (Trace.ofSource mode source).terminal = .eof stop line := by
  simp only [scan] at h
  split at h
  · cases h
    exact ⟨rfl, Trace.last_item_eq_eof.mp hend⟩
  · cases h

/-- Nothing but layout, separators and comments lies outside the items of a document that is scanned to
its end. -/
theorem Document.scan_outside {doc after : Document} {source : List UInt8} {mode : Mode}
    {items : List Item} (h : doc.scan source mode = .ok (items, after))
    (hend : items.getLast?.map (·.kind) = some .eof) :
    ∃ spans : List (Nat × Nat),
      List.Forall₂ (fun item span => item.Spans doc.base source span.1 span.2) items spans ∧
      spans.Pairwise (fun a b => a.2 ≤ b.1) ∧
      ∀ gap ∈ outside source (textStart source) spans, gap ∈ Gap.words := by
  obtain ⟨rfl, stop, line, hterminal⟩ := Document.trace_of_scan h hend
  obtain ⟨hspans, hpairs⟩ := Trace.items_spans mode source doc.base
  refine ⟨_, hspans, hpairs, ?_⟩
  obtain ⟨c, hc, hlast, rfl⟩ := Trace.ofSource_sifting Gap.joinable_words
    (fun s rs d _ hs hx hd => hd.mem_words (hs.stray_high hx)) hterminal
  have hgaps := hc.outside_mem (State.initial_crosses source) hlast Gap.nil_mem_words
  rw [State.offset_initial] at hgaps
  rw [Trace.spans, hterminal]
  exact hgaps

/-- A byte-order mark, a comment and a comma lie outside the items. -/
theorem Document.scan_outside_imports :
    let source := "\uFEFF#b\nimport (\"a\",\"b\")".toUTF8.data.toList
    ∃ items after,
      ({ name := "a", base := 1, size := 22 } : Document).scan source {} = .ok (items, after) ∧
      items.getLast?.map (·.kind) = some .eof ∧
      ∃ spans : List (Nat × Nat),
        List.Forall₂ (fun item span => item.Spans 1 source span.1 span.2) items spans ∧
        spans.Pairwise (fun a b => a.2 ≤ b.1) ∧
        ∀ gap ∈ outside source (textStart source) spans, gap ∈ Gap.words := by
  intro source
  have hscan : ({ name := "a", base := 1, size := 22 } : Document).scan source {} =
      .ok ((Trace.ofSource {} source).items 1, _) := if_pos (by decide +kernel)
  have hend : ((Trace.ofSource {} source).items 1).getLast?.map (·.kind) = some .eof := by
    decide +kernel
  exact ⟨_, _, hscan, hend, Document.scan_outside hscan hend⟩

end SchemaScan
