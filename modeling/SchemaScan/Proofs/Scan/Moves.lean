import SchemaScan.Proofs.Scan.Passage
import SchemaScan.Scan.Descent

/-! # The moves of a scanner

Each move of a scanner, started over a cursor in the source, ends over a cursor in the source. No move
of this kind is a breach: what is indexed is there, and what is given back has been taken.
-/
namespace SchemaScan

/-! ## Reading on -/

namespace Rune

theorem bytes_eq_lineFeed {r : Rune} (h : r.char = '\n') : r.bytes = [0x0A] := by
  cases r with
  | scalar c =>
    rw [char] at h
    subst h
    rfl
  | stray b => exact absurd h (by simp [char])

theorem text_nil : text [] = "" := by
  rw [text, List.flatMap_nil, Utf8.lossy, Utf8.lossyChars]
  rfl

theorem lineFeeds_singleton (r : Rune) : lineFeeds [r] = if r.char = '\n' then 1 else 0 := by
  simp [lineFeeds, List.countP_cons]

/-- Behind the first rune of a source, what is left is read in the same way. -/
theorem read_cons {source : List UInt8} {r : Rune} {rest : List Rune} (h : read source = r :: rest) :
    ∃ tail, source = r.bytes ++ tail ∧ read tail = rest ∧ (r.bytes = [0x0A] → r.char = '\n') := by
  have hlow : r.bytes = [0x0A] → r.char = '\n' := by
    intro hb
    cases r with
    | scalar c =>
      have hc := count_lineFeed_encode c
      rw [show String.utf8EncodeChar c = [0x0A] from hb] at hc
      by_cases hn : c = '\n'
      · exact hn
      · rw [if_neg hn] at hc
        cases hc
    | stray b =>
      have hh : 0x80 ≤ b.toNat := stray_high (by rw [h]; exact List.mem_cons_self)
      cases hb
      revert hh
      decide
  rw [read] at h
  split at h
  · rename_i c tail hd
    cases h
    exact ⟨tail, Utf8.eq_encode_of_decodeFirst? hd, rfl, hlow⟩
  · split at h
    · cases h
    · cases h
      exact ⟨_, rfl, rfl, hlow⟩

theorem length_le_span (rs : List Rune) : rs.length ≤ span rs := by
  induction rs with
  | nil => exact Nat.le_refl 0
  | cons r rs ih =>
    have := r.width_pos
    rw [List.length_cons, span_cons]
    omega

theorem length_read_le (source : List UInt8) : (read source).length ≤ source.length := by
  have h := length_le_span (read source)
  rwa [← length_flatMap_bytes, flatMap_bytes_read] at h

theorem read_drop {source : List UInt8} {taken rest : List Rune} (h : read source = taken ++ rest) :
    read (source.drop (span taken)) = rest := by
  induction taken generalizing source with
  | nil => exact h
  | cons r taken ih =>
    obtain ⟨tail, rfl, ht, -⟩ := read_cons h
    rw [span_cons, width, ← List.drop_drop, List.drop_left]
    exact ih ht

theorem read_eq_nil {source : List UInt8} (h : read source = []) : source = [] := by
  have := flatMap_bytes_read source
  rwa [h, List.flatMap_nil, eq_comm] at this

end Rune

/-! ## Cursors in a source -/

/-- No loop over the source takes more rounds than this. -/
def enoughRounds (source : List UInt8) : Nat := 2 * Goal.bound * source.length + 2

namespace Cursor

/-- The width of the next rune, 0 at the end of the source. -/
def width (c : Cursor) : Nat := Rune.span (c.rest.take 1)

theorem any_peek (c : Cursor) (r : Char) : (c.peek.any (· = r)) = decide (c.peek = some r) := by
  cases c.peek <;> simp

/-- A skip may start one rune later. -/
theorem skip_next {c : Cursor} {p : Char → Bool} (h : c.peek.all p = true) :
    c.next.skip p = c.skip p := by
  obtain ⟨offset, line, seen, _ | ⟨r, rest⟩⟩ := c
  · simp [skip, look, advance, next, Rune.run, Rune.afterRun]
  · have hr : p r.char = true := by simpa [peek] using h
    simp only [skip, look, advance, next, Rune.run, Rune.afterRun, List.takeWhile_cons, hr,
      ↓reduceIte, List.dropWhile_cons, List.take_succ_cons, List.take_zero, List.drop_succ_cons,
      List.drop_zero, Rune.span_cons, Rune.span_nil]
    have hl (rs : List Rune) :
        Rune.lineFeeds (r :: rs) = Rune.lineFeeds [r] + Rune.lineFeeds rs :=
      Rune.lineFeeds_append [r] rs
    rw [hl (rest.takeWhile (p ·.char)), hl []]
    simp only [Cursor.mk.injEq, Rune.lineFeeds_nil, and_true]
    omega

theorem skip_look (c : Cursor) (p : Char → Bool) : c.look.skip p = c.skip p := by
  obtain ⟨offset, line, seen, rest⟩ := c
  have hle : Rune.span (rest.take 1) ≤
      Rune.span (Rune.run p rest) + Rune.span ((Rune.afterRun p rest).take 1) := by
    have hs := Rune.run_append_afterRun p rest
    cases hrun : Rune.run p rest with
    | nil =>
      rw [hrun, List.nil_append] at hs
      rw [hs]
      exact Nat.le_add_left ..
    | cons r rs =>
      rw [hrun] at hs
      rw [← hs]
      simp only [List.cons_append, List.take_succ_cons, List.take_zero, Rune.span_cons, Rune.span_nil]
      omega
  simp only [skip, look, advance]
  congr 1
  omega

/-- The cursor stands in the source of the input, which is as long as its document, and no loop will be
given up. -/
structure Sits (c : Cursor) (input : Input) : Prop where
  fits : input.source.length = input.doc.size
  enough : enoughRounds input.source ≤ input.rounds
  inside : c.offset ≤ input.source.length
  rest : c.rest = Rune.read (input.source.drop c.offset)

namespace Sits

variable {c d : Cursor} {input : Input}

theorem crosses {taken : List Rune} (h : c.Sits input) (hx : c.Crosses taken d) : d.Sits input := by
  have hread : Rune.read (input.source.drop c.offset) = taken ++ d.rest := by rw [← h.rest, hx.rest]
  have hlen := Rune.length_flatMap_bytes (Rune.read (input.source.drop c.offset))
  rw [Rune.flatMap_bytes_read, hread, Rune.span_append, List.length_drop] at hlen
  have := h.inside
  refine ⟨h.fits, h.enough, ?_, ?_⟩
  · rw [hx.offset]
    omega
  · rw [hx.offset, ← List.drop_drop, Rune.read_drop hread]

theorem next (h : c.Sits input) : c.next.Sits input := h.crosses (.next c)

theorem look (h : c.Sits input) : c.look.Sits input := ⟨h.fits, h.enough, h.inside, h.rest⟩

theorem skip (h : c.Sits input) (p : Char → Bool) : (c.skip p).Sits input := h.crosses (.skip p c)

theorem length_rest_lt (h : c.Sits input) : c.rest.length < input.rounds := by
  have hread := Rune.length_read_le (input.source.drop c.offset)
  have henough := h.enough
  rw [← h.rest, List.length_drop] at hread
  simp only [enoughRounds, Goal.bound] at henough
  omega

/-- The bytes between two cursors. -/
theorem slice {taken : List Rune} (h : c.Sits input) (hx : c.Crosses taken d) :
    (input.source.take d.offset).drop c.offset = taken.flatMap Rune.bytes := by
  have hread : Rune.read (input.source.drop c.offset) = taken ++ d.rest := by rw [← h.rest, hx.rest]
  have hbytes := Rune.flatMap_bytes_read (input.source.drop c.offset)
  rw [hread, List.flatMap_append] at hbytes
  rw [List.drop_take, ← hbytes, hx.offset, Nat.add_sub_cancel_left, ← Rune.length_flatMap_bytes,
    List.take_left]

end Sits

end Cursor

/-! ## Running a scanner -/

namespace Scanner

section Run

variable {α β : Type} {input : Input} {h : Head}

theorem bind_apply (m : Scanner α) (f : α → Scanner β) :
    (m >>= f) input h =
      match m input h with
      | none => none
      | some (.ok a, h') => f a input h'
      | some (.error e, h') => some (.error e, h') := by
  change (m input h).bind _ = _
  rcases m input h with _ | ⟨_ | _, _⟩ <;> rfl

/-- The scanner ends without a breach, and either with a result for which `Q` holds or with an error
that completes the expected items. -/
def Ends (input : Input) (expected : List Item) (m : Scanner α) (h : Head) (Q : α → Head → Prop) :
    Prop :=
  match m input h with
  | none => False
  | some (.ok a, h') => Q a h'
  | some (.error (.breach _), _) => False
  | some (.error .refused, _) => False
  | some (.error (.fault message start line), h') =>
    start ≤ input.source.length ∧
      h'.found ++ [⟨.error, input.doc.base + start, message, line⟩] = expected

variable {expected : List Item}

theorem ends_bind {m : Scanner α} {f : α → Scanner β} {Q : β → Head → Prop} :
    Ends input expected (m >>= f) h Q ↔
      Ends input expected m h fun a h' => Ends input expected (f a) h' Q := by
  unfold Ends
  rw [bind_apply]
  rcases m input h with _ | ⟨⟨_ | _ | _⟩ | _, _⟩ <;> rfl

theorem ends_pure {a : α} {Q : α → Head → Prop} : Ends input expected (pure a) h Q ↔ Q a h := Iff.rfl

theorem ends_get {Q : Head → Head → Prop} : Ends input expected get h Q ↔ Q h h := Iff.rfl

theorem ends_set {k : Head} {Q : PUnit → Head → Prop} :
    Ends input expected (set k) h Q ↔ Q ⟨⟩ k := Iff.rfl

theorem ends_read {Q : Input → Head → Prop} : Ends input expected read h Q ↔ Q input h := Iff.rfl

theorem Ends.imp {m : Scanner α} {Q R : α → Head → Prop} (hm : Ends input expected m h Q)
    (hQ : ∀ a h', Q a h' → R a h') : Ends input expected m h R := by
  unfold Ends at *
  revert hm
  rcases m input h with _ | ⟨⟨_ | _ | _⟩ | _, _⟩ <;> intro hm
  · exact hm
  · exact hm
  · exact hm
  · exact hm
  · exact hQ _ _ hm

theorem ends_minus {whole part : Nat} (hle : part ≤ whole) {Q : Nat → Head → Prop} :
    Ends input expected (minus whole part) h Q ↔ Q (whole - part) h := by
  rw [minus, if_pos hle, ends_pure]

end Run

end Scanner

/-! ## Moves over cursors -/

/-- The head over the cursor `d`, with all from the cursor `c` on pending. -/
def Head.spanning (found : List Item) (c d : Cursor) (width : Nat) : Head where
  pos := d.offset
  start := c.offset
  width := width
  line := d.line
  found := found

@[simp] theorem Head.pos_spanning (found : List Item) (c d : Cursor) (w : Nat) :
    (spanning found c d w).pos = d.offset := rfl

/-- The head over a cursor, with nothing pending. -/
abbrev Head.at (found : List Item) (c : Cursor) (width : Nat) : Head := .spanning found c c width

namespace Scanner

open Head

variable {input : Input} {expected found : List Item} {c d : Cursor} {w : Nat}

theorem ends_next (hd : d.Sits input) {Q : Option Char → Head → Prop} :
    Ends input expected next (spanning found c d w) Q ↔ Q d.peek (spanning found c d.next d.width) := by
  have hrest := hd.rest
  have hinside := hd.inside
  simp only [next, ends_bind, ends_get, ends_read]
  split
  · rename_i hend
    rw [List.drop_of_length_le (show input.source.length ≤ d.offset from hend), Rune.read_nil] at hrest
    simp only [ends_bind, ends_set, ends_pure]
    simp [spanning, Cursor.next, Cursor.advance, Cursor.width, Cursor.peek, hrest]
  · rename_i hend
    split
    · rename_i hread
      have := Rune.read_eq_nil hread
      rw [List.drop_eq_nil_iff] at this
      exact absurd this hend
    · rename_i r rest hread
      rw [show (spanning found c d w).pos = d.offset from rfl, ← hrest] at hread
      simp only [ends_bind, ends_set, ends_pure]
      simp only [spanning, Cursor.next, Cursor.advance, Cursor.width, Cursor.peek, hread, List.head?_cons,
        Option.map_some, List.take_succ_cons, List.take_zero, Rune.span_cons, Rune.span_nil, Nat.add_zero,
        Rune.lineFeeds_singleton]
      split <;> rfl

theorem ends_backup (hd : d.Sits input) {Q : Unit → Head → Prop} :
    Ends input expected backup (spanning found c d.next d.width) Q ↔ Q () (spanning found c d d.width) := by
  have hrest := hd.rest
  simp only [backup, ends_bind, ends_get]
  rw [ends_minus (by exact Nat.le_add_left ..)]
  have hpos : (spanning found c d.next d.width).pos - (spanning found c d.next d.width).width = d.offset :=
    Nat.add_sub_cancel ..
  rw [hpos]
  cases hr : d.rest with
  | nil =>
    have hw : d.width = 0 := by rw [Cursor.width, hr]; rfl
    have hl : d.next.line = d.line := by simp [Cursor.next, Cursor.advance, hr]
    simp only [spanning, hw, ends_set, Nat.zero_ne_one, ↓reduceIte, hl]
  | cons r rest =>
    have hw : d.width = r.width := by simp [Cursor.width, hr]
    have hl : d.next.line = d.line + if r.char = '\n' then 1 else 0 := by
      simp [Cursor.next, Cursor.advance, hr, Rune.lineFeeds_singleton]
    obtain ⟨tail, hs, -, hlow⟩ := Rune.read_cons (hrest.symm.trans hr)
    simp only [spanning, hw]
    split
    · rename_i h1
      obtain ⟨b, hb⟩ := List.length_eq_one_iff.mp h1
      have hbyte : input.source[d.offset]? = some b := by
        rw [← Nat.add_zero d.offset, ← List.getElem?_drop, hs, hb]
        rfl
      simp only [byteAt, ends_bind, ends_read, hbyte, ends_pure]
      split
      · rename_i h10
        rw [if_pos (hlow (by rw [hb, h10]))] at hl
        rw [ends_bind, ends_minus (hl ▸ Nat.le_add_left ..), ends_set, hl, Nat.add_sub_cancel]
      · rename_i h10
        rw [if_neg, Nat.add_zero] at hl
        · simp only [ends_set, hl]
        · intro hn
          rw [Rune.bytes_eq_lineFeed hn] at hb
          cases hb
          exact h10 rfl
    · rename_i h1
      rw [if_neg, Nat.add_zero] at hl
      · simp only [ends_set, hl]
      · intro hn
        rw [Rune.width, Rune.bytes_eq_lineFeed hn] at h1
        exact h1 rfl

theorem ends_peek (hd : d.Sits input) {Q : Option Char → Head → Prop} :
    Ends input expected peek (spanning found c d w) Q ↔ Q d.peek (spanning found c d d.width) := by
  simp only [peek, ends_bind, ends_next hd, ends_backup hd, ends_pure]

theorem ends_accept (hd : d.Sits input) {p : Char → Bool} {Q : Bool → Head → Prop} :
    Ends input expected (accept p) (spanning found c d w) Q ↔
      if d.peek.any p then Q true (spanning found c d.next d.width)
      else Q false (spanning found c d d.width) := by
  simp only [accept, ends_bind, ends_next hd]
  split
  · exact ends_pure
  · simp only [ends_bind, ends_backup hd, ends_pure]

/-- What is done next depends on the next character. -/
theorem ends_ifAccept (hd : d.Sits input) {p : Char → Bool} {α : Type} {yes no : Scanner α}
    {Q : α → Head → Prop} :
    Ends input expected (do if ← accept p then yes else no) (spanning found c d w) Q ↔
      if d.peek.any p then Ends input expected yes (spanning found c d.next d.width) Q
      else Ends input expected no (spanning found c d d.width) Q := by
  rw [ends_bind, ends_accept hd]
  split
  · rfl
  · rfl

theorem ends_passWithin (hd : d.Sits input) {p : Char → Bool} {rounds : Nat}
    (hlt : d.rest.length < rounds) {Q : Unit → Head → Prop} :
    Ends input expected (passWithin p rounds) (spanning found c d w) Q ↔
      Q () (spanning found c (d.skip p).next (d.skip p).width) := by
  induction rounds generalizing d w with
  | zero => exact absurd hlt (Nat.not_lt_zero _)
  | succ rounds ih =>
    rw [passWithin, ends_bind, ends_next hd]
    split
    · rename_i hp
      obtain ⟨r, hr, hpr⟩ := (Option.any_eq_true _ _).mp hp
      have hnext := Cursor.length_next_lt hr
      rw [ih hd.next (by omega), Cursor.skip_next (by rw [hr]; exact hpr)]
    · rename_i hp
      rw [Cursor.skip_of_not (by simpa using hp)]
      exact ends_pure

theorem ends_pass (hd : d.Sits input) {p : Char → Bool} {Q : Unit → Head → Prop} :
    Ends input expected (pass p) (spanning found c d w) Q ↔
      Q () (spanning found c (d.skip p).next (d.skip p).width) := by
  rw [pass, ends_bind, ends_read, ends_passWithin hd hd.length_rest_lt]

theorem ends_acceptRun (hd : d.Sits input) {p : Char → Bool} {Q : Unit → Head → Prop} :
    Ends input expected (acceptRun p) (spanning found c d w) Q ↔
      Q () (spanning found c (d.skip p) (d.skip p).width) := by
  simp only [acceptRun, ends_bind, ends_pass hd, ends_backup (hd.skip p)]

theorem ends_ignore {Q : Unit → Head → Prop} :
    Ends input expected ignore (spanning found c d w) Q ↔ Q () (Head.at found d w) := by
  simp only [ignore, ends_bind, ends_get, ends_set]
  rfl

theorem ends_skip (hd : d.Sits input) {p : Char → Bool} {Q : Unit → Head → Prop} :
    Ends input expected (skip p) (spanning found c d w) Q ↔
      Q () (Head.at found (d.skip p) (d.skip p).width) := by
  simp only [skip, ends_bind, ends_acceptRun hd, ends_ignore]

section Pending

variable {taken : List Rune}

theorem ends_pending (hc : c.Sits input) (hx : c.Crosses taken d) {Q : String → Head → Prop} :
    Ends input expected pending (spanning found c d w) Q ↔ Q (Rune.text taken) (spanning found c d w) := by
  have hle := hx.offset_le
  have hd := (hc.crosses hx).inside
  simp only [pending, slice, ends_bind, ends_get, ends_read, spanning]
  rw [if_pos ⟨hle, hd⟩, ends_pure, ends_pure, hc.slice hx]
  rfl

theorem ends_emit (hc : c.Sits input) (hx : c.Crosses taken d) {kind : Kind} {Q : Unit → Head → Prop} :
    Ends input expected (emit kind) (spanning found c d w) Q ↔
      Q () (Head.at (found ++ [⟨kind, input.doc.base + c.offset, Rune.text taken, d.line⟩]) d w) := by
  have hle : (spanning found c d w).start ≤ input.doc.size := hc.fits ▸ hc.inside
  simp only [emit, ends_bind, ends_get, positionOf, ends_read, Document.positionOf, if_pos hle,
    ends_pure, ends_pending hc hx, ends_set]
  rfl

theorem ends_fail (hc : c.Sits input) {α : Type} {f : Fault} {Q : α → Head → Prop}
    (he : found ++ [⟨.error, input.doc.base + c.offset, f.message, d.line⟩] = expected) :
    Ends input expected (fail f) (spanning found c d w) Q := ⟨hc.inside, he⟩

theorem ends_failQuoting (hc : c.Sits input) (hx : c.Crosses taken d) {α : Type} {f : String → Fault}
    {Q : α → Head → Prop} (he : found ++
      [⟨.error, input.doc.base + c.offset, (f (Rune.text taken)).message, d.line⟩] = expected) :
    Ends input expected (failQuoting f) (spanning found c d w) Q := by
  rw [failQuoting, ends_bind, ends_pending hc hx]
  exact ends_fail hc he

end Pending

end Scanner

end SchemaScan
