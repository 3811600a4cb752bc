import SchemaScan.Proofs.Scan.Comments
import SchemaScan.Proofs.Scan.Conformance
import SchemaScan.Proofs.Scan.Spans
import SchemaScan.Proofs.Scan.Visits

/-! # What a scan leaves out

Between two tokens a scan leaves out layout, separators and comments, and nothing else. Comments that
are asked for are left out behind an element of a series that ends with a closing mark, and nowhere else.
The word `on` is left out where a definition should start, but behind it the scan cannot reach the end.
-/
namespace SchemaScan

open Computability

/-! ## Cursors in a source -/

/-- The cursor stands in the source. -/
def Cursor.StandsIn (c : Cursor) (source : List UInt8) : Prop :=
  ∃ before, (Cursor.start (Rune.read source)).Crosses before c

namespace Cursor.StandsIn

variable {c d : Cursor} {source : List UInt8} {taken : List Rune}

theorem crosses (h : c.StandsIn source) (hx : c.Crosses taken d) : d.StandsIn source := by
  obtain ⟨before, hb⟩ := h
  exact ⟨_, hb.trans hx⟩

theorem read_eq (h : c.StandsIn source) (hx : c.Crosses taken d) :
    ∃ before, Rune.read source = before ++ taken ++ d.rest ∧ c.offset = Rune.span before := by
  obtain ⟨before, hb⟩ := h
  refine ⟨before, (hb.trans hx).rest, ?_⟩
  rw [hb.offset]
  exact Nat.zero_add _

/-- The bytes between two cursors. -/
theorem slice (h : c.StandsIn source) (hx : c.Crosses taken d) :
    (source.take d.offset).drop c.offset = taken.flatMap Rune.bytes ∧ d.offset ≤ source.length := by
  obtain ⟨before, hall, hc⟩ := h.read_eq hx
  obtain ⟨hslice, hinside, -⟩ := Rune.slice_of_split hall
  rw [hx.offset, hc]
  exact ⟨hslice, hinside⟩

theorem stray_high (h : c.StandsIn source) (hx : c.Crosses taken d) :
    ∀ b, .stray b ∈ taken → 0x80 ≤ b.toNat := by
  intro b hb
  obtain ⟨before, hall, -⟩ := h.read_eq hx
  refine Rune.stray_high (?_ : .stray b ∈ Rune.read source)
  rw [hall]
  exact List.mem_append_left _ (List.mem_append_right _ hb)

end Cursor.StandsIn

/-! ## What a step leaves out -/

/-- The tokens follow each other without a gap. -/
inductive Unbroken : Cursor → List Lexeme → Cursor → Prop
  | nil {c d : Cursor} (h : c.Crosses [] d) : Unbroken c [] d
  | cons {c d e : Cursor} {l : Lexeme} {found : List Lexeme} (hx : c.Crosses l.runes d)
      (hs : l.start = c.offset) (h : Unbroken d found e) : Unbroken c (l :: found) e

theorem TakesAll.unbroken {mode : Mode} {c d : Cursor} {found : List Lexeme}
    (h : TakesAll mode c found d) : Unbroken c found d := by
  induction h with
  | nil c => exact .nil (.refl c)
  | cons _ hx _ ih => exact .cons hx.crosses rfl ih

/-- The step first leaves something out and then takes its tokens, or leaves the scan without a way to
the end. -/
def Step.Sifts (drops : List Rune → Prop) (c : Cursor) : Step → Prop
  | next found t =>
    (∃ dropped d, c.Crosses dropped d ∧ drops dropped ∧ Unbroken d found t.cursor) ∨
      Goal.stackWords t.goals = 0
  | halt _ _ => True

namespace State

variable {mode : Mode} {s : State}

theorem Makes.sifts {step : Step} (h : s.Makes mode step) (hkeep : Goal.AllKeep s.goals) :
    step.Sifts (s.Drops mode) s.cursor := by
  cases h with
  | ends | fails => trivial
  | goes hskips _ htakes _ =>
    obtain ⟨-, dropped, hx, hdrops⟩ := hskips
    exact .inl ⟨dropped, _, hx, hdrops hkeep, htakes.unbroken⟩
  | loses =>
    right
    rw [Goal.stackWords_append, Goal.allWords_definitionRest_on, zero_mul]

theorem step_sifts (mode : Mode) {s : State} (h : Goal.AllKeep s.goals) :
    (s.step mode).Sifts (s.Drops mode) s.cursor := (s.step_makes mode).sifts h

end State

/-! ## What a run leaves out -/

/-- A property of stretches of bytes, each at its offset, that passes to two neighbours together. -/
structure Joinable (stretch : Nat → List UInt8 → Prop) : Prop where
  nil : ∀ n, stretch n []
  append : ∀ {n : Nat} {a b : List UInt8}, stretch n a → stretch (n + a.length) b → stretch n (a ++ b)

/-- The tokens between two cursors, where every stretch that is left out has the property. -/
inductive Sifting (stretch : Nat → List UInt8 → Prop) : Cursor → List Lexeme → Cursor → Prop
  | gap {c d : Cursor} {dropped : List Rune} (hx : c.Crosses dropped d)
      (hg : stretch c.offset (dropped.flatMap Rune.bytes)) : Sifting stretch c [] d
  | token {c d e f : Cursor} {dropped : List Rune} {l : Lexeme} {found : List Lexeme}
      (hx : c.Crosses dropped d) (hg : stretch c.offset (dropped.flatMap Rune.bytes))
      (hl : d.Crosses l.runes e) (hs : l.start = d.offset) (hf : Sifting stretch e found f) :
      Sifting stretch c (l :: found) f

namespace Sifting

variable {stretch : Nat → List UInt8 → Prop} {c d e : Cursor} {a b found : List Lexeme}
variable {dropped : List Rune} {source : List UInt8}

theorem behind (hstretch : Joinable stretch) (h : Sifting stretch d found e)
    (hx : c.Crosses dropped d) (hg : stretch c.offset (dropped.flatMap Rune.bytes)) :
    Sifting stretch c found e := by
  have hjoin {more : List Rune} (hmore : stretch d.offset (more.flatMap Rune.bytes)) :
      stretch c.offset ((dropped ++ more).flatMap Rune.bytes) := by
    rw [hx.offset, ← Rune.length_flatMap_bytes] at hmore
    rw [List.flatMap_append]
    exact hstretch.append hg hmore
  cases h with
  | gap hx' hg' => exact .gap (hx.trans hx') (hjoin hg')
  | token hx' hg' hl hs hf => exact .token (hx.trans hx') (hjoin hg') hl hs hf

theorem append (hstretch : Joinable stretch) (h : Sifting stretch c a d)
    (h' : Sifting stretch d b e) : Sifting stretch c (a ++ b) e := by
  induction h with
  | gap hx hg => exact behind hstretch h' hx hg
  | token hx hg hl hs _ ih => exact .token hx hg hl hs (ih h')

theorem of_unbroken (hstretch : Joinable stretch) (h : Unbroken c found d) :
    Sifting stretch c found d := by
  induction h with
  | nil h => exact .gap h (hstretch.nil _)
  | cons hx hs _ ih => exact .token (.refl _) (hstretch.nil _) hx hs ih

theorem crosses (h : Sifting stretch c found d) : ∃ taken, c.Crosses taken d := by
  induction h with
  | gap hx _ => exact ⟨_, hx⟩
  | token hx _ hl _ _ ih =>
    obtain ⟨taken, ht⟩ := ih
    exact ⟨_, (hx.trans hl).trans ht⟩

/-- A byte between the two cursors lies in a token or in a stretch that has the property. -/
theorem covers (h : Sifting stretch c found d) (hc : c.StandsIn source) {o : Nat}
    (hco : c.offset ≤ o) (hod : o < d.offset) :
    (∃ l ∈ found, l.start ≤ o ∧ o < l.stop) ∨
      ∃ n bytes, stretch n bytes ∧ n ≤ o ∧ bytes[o - n]? = source[o]? := by
  have hgap {c d : Cursor} {dropped : List Rune} (hc : c.StandsIn source)
      (hx : c.Crosses dropped d) (hg : stretch c.offset (dropped.flatMap Rune.bytes))
      (hco : c.offset ≤ o) (hod : o < d.offset) :
      ∃ n bytes, stretch n bytes ∧ n ≤ o ∧ bytes[o - n]? = source[o]? := by
    refine ⟨c.offset, _, hg, hco, ?_⟩
    rw [← (hc.slice hx).1, List.getElem?_drop, Nat.add_sub_cancel' hco, List.getElem?_take,
      if_pos hod]
  induction h with
  | gap hx hg => exact .inr (hgap hc hx hg hco hod)
  | @token c d e f dropped l found hx hg hl hs _ ih =>
    have hstop : l.stop = e.offset := by rw [Lexeme.stop, hs, hl.offset]
    rcases Nat.lt_or_ge o d.offset with hd | hd
    · exact .inr (hgap hc hx hg hco hd)
    · rcases Nat.lt_or_ge o e.offset with he | he
      · exact .inl ⟨l, List.mem_cons_self, by omega, by omega⟩
      · refine (ih ((hc.crosses hx).crosses hl) he hod).imp_left ?_
        rintro ⟨k, hk, ho⟩
        exact ⟨k, List.mem_cons_of_mem _ hk, ho⟩

end Sifting

/-- A scan that reaches the end has left out only stretches that its steps may leave out. -/
theorem State.trace_sifting {stretch : Nat → List UInt8 → Prop} (hstretch : Joinable stretch)
    {source : List UInt8} {mode : Mode} {start : State}
    (hdrop : ∀ (s : State) (rs : List Rune) (d : Cursor), start.Visits mode s →
      s.cursor.StandsIn source → s.cursor.Crosses rs d → s.Drops mode rs →
        stretch s.cursor.offset (rs.flatMap Rune.bytes))
    {s : State} (hv : start.Visits mode s) (hk : Goal.AllKeep s.goals)
    (hs : s.cursor.StandsIn source) {stop line : Nat}
    (hend : (s.trace mode).terminal = .eof stop line) :
    ∃ c, Sifting stretch s.cursor (s.trace mode).lexemes c ∧ c.rest = [] ∧ c.offset = stop := by
  fun_induction State.trace mode s with
  | case1 s terminal d h =>
    have hfrom := s.step_from mode
    obtain rfl : terminal = .eof stop line := hend
    rw [h] at hfrom
    obtain ⟨⟨hrest, rfl, -⟩, -⟩ := hfrom
    exact ⟨s.cursor, .gap (.refl _) (hstretch.nil _), hrest, rfl⟩
  | case2 s found t h rest ih =>
    have hsifts := s.step_sifts mode hk
    have hfrom := s.step_from mode
    rw [h] at hsifts hfrom
    rcases hsifts with ⟨dropped, d, hx, hdrops, hfound⟩ | hnone
    · obtain ⟨taken, ht⟩ := Passage.crosses hfrom
      have hstep : s.StepsTo mode t := ⟨found, h⟩
      obtain ⟨c, hc, hlast⟩ := ih (hv.tail hstep) (hstep.keeps hk) (hs.crosses ht) hend
      have hg := hdrop s dropped d hv hs hx hdrops
      exact ⟨c, .behind hstretch ((Sifting.of_unbroken hstretch hfound).append hstretch hc) hx hg,
        hlast⟩
    · have hplain : (t.trace {}).terminal = .eof stop line := by
        rw [← t.trace_withoutComments mode]
        exact hend
      have hwords := t.trace_conforms hplain
      rw [hnone] at hwords
      exact absurd hwords (Language.notMem_zero _)

theorem Trace.ofSource_sifting {stretch : Nat → List UInt8 → Prop} (hstretch : Joinable stretch)
    {source : List UInt8} {mode : Mode}
    (hdrop : ∀ (s : State) (rs : List Rune) (d : Cursor), (State.initial source).Visits mode s →
      s.cursor.StandsIn source → s.cursor.Crosses rs d → s.Drops mode rs →
        stretch s.cursor.offset (rs.flatMap Rune.bytes))
    {stop line : Nat} (hend : (ofSource mode source).terminal = .eof stop line) :
    ∃ c, Sifting stretch (State.initial source).cursor (ofSource mode source).lexemes c ∧
      c.offset = source.length ∧ stop = source.length := by
  have hinit : (State.initial source).cursor.StandsIn source := State.initial_crosses source
  obtain ⟨c, hc, hrest, rfl⟩ :=
    State.trace_sifting hstretch hdrop .refl (State.initial_keeps source) hinit hend
  have hlast : c.offset = source.length := by
    obtain ⟨taken, ht⟩ := hc.crosses
    obtain ⟨before, hall, hb⟩ := hinit.read_eq ht
    have hspan := Rune.length_flatMap_bytes (Rune.read source)
    rw [Rune.flatMap_bytes_read, hall, hrest, List.append_nil, Rune.span_append] at hspan
    rw [ht.offset, hb, hspan]
  exact ⟨c, hc, hlast, hlast⟩

end SchemaScan
