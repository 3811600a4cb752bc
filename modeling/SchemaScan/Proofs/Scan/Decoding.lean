import Mathlib.Algebra.GroupWithZero.Nat
import SchemaScan.Proofs.Scan.LineTables
import SchemaScan.Proofs.Schema.Literals

/-! # Decoding

What a head takes next is what UTF-8 makes of the bytes in front of it, and taken again and again it makes up
the source: every byte belongs to exactly one rune, and an encoded text gives its own characters.
-/
namespace SchemaScan

namespace Utf8

/-- What the bytes begin with: a scalar value, with the length of its encoding, or U+FFFD for a single byte if the
encoding of no scalar value stands there. -/
inductive Begins (bytes : List UInt8) : Char → Nat → Prop
  | scalar (c : Char) (h : String.utf8EncodeChar c <+: bytes) :
    Begins bytes c (String.utf8EncodeChar c).length
  | stray (h : ∀ c, ¬ String.utf8EncodeChar c <+: bytes) : Begins bytes '\uFFFD' 1

/-- The characters that the bytes begin with, one after the other, and their lengths. -/
inductive Decodes : List UInt8 → List (Char × Nat) → Prop
  | nil : Decodes [] []
  | cons {bytes : List UInt8} {c : Char} {w : Nat} {more : List (Char × Nat)} (hne : bytes ≠ [])
    (h : Begins bytes c w) (hmore : Decodes (bytes.drop w) more) : Decodes bytes ((c, w) :: more)

variable {bytes : List UInt8} {c : Char} {w : Nat}

/-- The first rune of the bytes is what they begin with. -/
theorem begins_iff {r : Rune} {rest : List Rune} (hread : Rune.read bytes = r :: rest) :
    Begins bytes c w ↔ c = r.char ∧ w = r.width := by
  obtain ⟨tail, hbytes, -⟩ := Rune.read_cons hread
  have hscalar {c : Char} (h : String.utf8EncodeChar c <+: bytes) : r = .scalar c := by
    obtain ⟨more, rfl⟩ := h
    rw [Rune.read_encode_append] at hread
    exact (List.cons.inj hread).1.symm
  constructor
  · rintro (⟨c, h⟩ | h)
    · rw [hscalar h]
      exact ⟨rfl, rfl⟩
    · cases r with
      | scalar d => exact absurd ⟨tail, hbytes.symm⟩ (h d)
      | stray b => exact ⟨rfl, rfl⟩
  · rintro ⟨rfl, rfl⟩
    cases r with
    | scalar d => exact .scalar d ⟨tail, hbytes.symm⟩
    | stray b =>
      refine .stray fun d hd => ?_
      cases hscalar hd

/-- The runes of the bytes are what is decoded, and nothing else is. -/
theorem decodes_iff {steps : List (Char × Nat)} :
    Decodes bytes steps ↔ steps = (Rune.read bytes).map fun r => (r.char, r.width) := by
  generalize hrs : Rune.read bytes = rs
  induction rs generalizing bytes steps with
  | nil =>
    obtain rfl := Rune.read_eq_nil hrs
    constructor
    · rintro (_ | ⟨hne, -, -⟩)
      · rfl
      · exact absurd rfl hne
    · rintro rfl
      exact .nil
  | cons r rest ih =>
    obtain ⟨tail, hbytes, hrest, -⟩ := Rune.read_cons hrs
    have hdrop : bytes.drop r.width = tail := by rw [hbytes, Rune.width, List.drop_left]
    have hne : bytes ≠ [] := by
      rintro rfl
      rw [Rune.read_nil] at hrs
      cases hrs
    constructor
    · rintro (_ | ⟨-, hbegins, hmore⟩)
      · exact absurd rfl hne
      · obtain ⟨rfl, rfl⟩ := (begins_iff hrs).mp hbegins
        rw [hdrop] at hmore
        rw [(ih hrest).mp hmore, List.map_cons]
    · rintro rfl
      refine .cons hne ((begins_iff hrs).mpr ⟨rfl, rfl⟩) ?_
      rw [hdrop]
      exact (ih hrest).mpr rfl

end Utf8

namespace Rune

theorem sum_widths (rs : List Rune) : ((rs.map fun r => (r.char, r.width)).map Prod.snd).sum = span rs := by
  induction rs with
  | nil => rfl
  | cons r rs ih => rw [List.map_cons, List.map_cons, List.sum_cons, ih, span_cons]

/-- Every byte of a stretch belongs to exactly one of its runes. -/
theorem existsUnique_take (rs : List Rune) {i : Nat} (h : i < span rs) :
    ∃! k, span (rs.take k) ≤ i ∧ i < span (rs.take (k + 1)) := by
  induction rs generalizing i with
  | nil => exact absurd h (Nat.not_lt_zero i)
  | cons r rs ih =>
    rcases Nat.lt_or_ge i r.width with hfirst | hlater
    · refine ⟨0, ⟨Nat.zero_le i, by simpa using hfirst⟩, ?_⟩
      rintro (_ | k) ⟨hle, -⟩
      · rfl
      · rw [List.take_succ_cons, span_cons] at hle
        omega
    · rw [span_cons] at h
      obtain ⟨k, ⟨hle, hlt⟩, hunique⟩ := ih (i := i - r.width) (by omega)
      refine ⟨k + 1, ⟨?_, ?_⟩, ?_⟩
      · rw [List.take_succ_cons, span_cons]
        omega
      · rw [List.take_succ_cons, span_cons]
        omega
      · rintro (_ | l) ⟨hle', hlt'⟩
        · simp only [List.take_succ_cons, List.take_zero, span_cons, span_nil] at hlt'
          omega
        · rw [List.take_succ_cons, span_cons] at hle' hlt'
          rw [hunique l ⟨by omega, by omega⟩]

end Rune

/-- Inside a source a head takes what UTF-8 makes of the bytes in front of it. -/
theorem Scanner.next_iff {input : Input} {h : Head} (hpos : h.pos < input.source.length) {c : Char} {w : Nat} :
    next input h = some (.ok (some c), { h with
        pos := h.pos + w
        width := w
        line := if c = '\n' then h.line + 1 else h.line }) ↔
      Utf8.Begins (input.source.drop h.pos) c w := by
  cases hread : Rune.read (input.source.drop h.pos) with
  | nil =>
    have := Rune.read_eq_nil hread
    rw [List.drop_eq_nil_iff] at this
    omega
  | cons r rest =>
    rw [next_of_read hpos hread, Utf8.begins_iff hread]
    constructor
    · intro heq
      simp only [Option.some.injEq, Prod.mk.injEq, Except.ok.injEq, Head.mk.injEq] at heq
      exact ⟨heq.1.symm, heq.2.2.2.1.symm⟩
    · rintro ⟨rfl, rfl⟩
      rfl

/-- Decoding is UTF-8, with U+FFFD for every byte at which no character begins. It can be repeated up to the end
of any source, in one way only, so that every byte belongs to exactly one step; and the encoding of a text comes
back as the text. -/
theorem Utf8.decodes_source (source : List UInt8) :
    (∀ input : Input, input.source = source → ∀ h : Head, h.pos < source.length → ∀ c w,
      Begins (source.drop h.pos) c w ↔ Scanner.next input h = some (.ok (some c), { h with
        pos := h.pos + w
        width := w
        line := if c = '\n' then h.line + 1 else h.line })) ∧
    (∃ steps, (∀ others, Decodes source others ↔ others = steps) ∧
      (steps.map Prod.snd).sum = source.length ∧
      ∀ i < source.length, ∃! k, ((steps.take k).map Prod.snd).sum ≤ i ∧
        i < ((steps.take (k + 1)).map Prod.snd).sum) ∧
    ∀ cs steps, source = cs.flatMap String.utf8EncodeChar → Decodes source steps →
      steps.map Prod.fst = cs := by
  refine ⟨?_, ⟨(Rune.read source).map fun r => (r.char, r.width), ?_, ?_, ?_⟩, ?_⟩
  · rintro input rfl h hpos c w
    exact (Scanner.next_iff hpos).symm
  · exact fun _ => decodes_iff
  · rw [Rune.sum_widths, ← Rune.length_flatMap_bytes, Rune.flatMap_bytes_read]
  · intro i hi
    rw [← Rune.flatMap_bytes_read source, Rune.length_flatMap_bytes] at hi
    simp only [← List.map_take, Rune.sum_widths]
    exact Rune.existsUnique_take _ hi
  · rintro cs steps rfl hsteps
    have hread := Rune.read_scalars_append cs []
    rw [List.append_nil, Rune.read_nil, List.append_nil] at hread
    rw [decodes_iff.mp hsteps, hread, List.map_map, List.map_map]
    exact List.map_id cs

/-- A longer form than need be, a surrogate, and a sequence that breaks off. -/
example : Rune.read [0xC0, 0x80, 0xED, 0xA0, 0x80, 0xC3, 0xA9, 0xE2, 0x82] =
    [.stray 0xC0, .stray 0x80, .stray 0xED, .stray 0xA0, .stray 0x80, .scalar 'é', .stray 0xE2, .stray 0x82] := by
  decide +kernel

end SchemaScan
