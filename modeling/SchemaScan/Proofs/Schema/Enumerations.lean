import SchemaScan.Proofs.Scan.Spans
import SchemaScan.Proofs.Scan.Visits
import SchemaScan.Proofs.Schema.Documents

/-! # Enumerations with separators of every kind

The separators of an enumeration may differ. The first comma or line break fixes what the others have to
be. A comment stands for a line break in that no comma may come before it, but it fixes nothing, so
commas may come behind it.
-/
namespace SchemaScan

namespace Schema

open Piece

/-- What stands between two values. -/
inductive Separator where
  | comma
  | lineBreak
  /-- A number sign and the text behind it, up to the end of the line. -/
  | comment (text : List UInt8) (isLine : 0x0D ∉ text ∧ 0x0A ∉ text)

/-- An enumeration with one value at least. -/
structure Enumeration where
  name : Name
  first : Name
  /-- Every other value, with the separator in front of it. -/
  others : List (Separator × Name)

namespace Separator

def bytes : Separator → List UInt8
  | comma => [0x2C]
  | lineBreak => [0x0A]
  | comment text _ => 0x23 :: (text ++ [0x0A])

def runes : Separator → List Rune
  | comma => [.scalar ',']
  | lineBreak => [.scalar '\n']
  | comment text _ => .scalar '#' :: (Rune.read text ++ [.scalar '\n'])

def isComma : Separator → Bool
  | comma => true
  | _ => false

def isComment : Separator → Bool
  | comment .. => true
  | _ => false

/-- What is fixed behind the separator if `fixed` was fixed in front of it; none where the separator is
not allowed. -/
def fix (fixed : Option Char) : Separator → Option (Option Char)
  | comma => if fixed = none ∨ fixed = some ',' then some (some ',') else none
  | lineBreak => if fixed = none ∨ fixed = some '\n' then some (some '\n') else none
  | comment _ _ => if fixed = some ',' then none else some fixed

end Separator

namespace Enumeration

/-- The pieces up to the first separator. -/
def opening (e : Enumeration) : List Piece :=
  [word .enum, blank, e.name.piece, blank, mark .braceOpen, blank, e.first.piece, blank]

def separators (e : Enumeration) : List Separator := e.others.map (·.1)

/-- A value, with blanks around it. -/
def value (v : Name) : List Piece := [blank, v.piece, blank]

/-- What stands behind the first value. -/
def restBytes (others : List (Separator × Name)) : List UInt8 :=
  others.flatMap (fun o => o.1.bytes ++ (allRunes (value o.2)).flatMap Rune.bytes) ++ [0x7D]

def restRunes (others : List (Separator × Name)) : List Rune :=
  others.flatMap (fun o => o.1.runes ++ allRunes (value o.2)) ++ [.scalar '}']

/-- The source of an enumeration, with a blank on either side of every value. -/
def source (e : Enumeration) : List UInt8 :=
  (allRunes e.opening).flatMap Rune.bytes ++ restBytes e.others

end Enumeration

/-! ## Reading the source -/

/-- The bytes of a separator are read as its runes, whatever comes next. -/
theorem Separator.read_append (s : Separator) (tail : List UInt8) :
    Rune.read (s.bytes ++ tail) = s.runes ++ Rune.read tail ∧
      Utf8.StartsFresh (s.bytes ++ tail) := by
  have hchar (c : Char) (tail : List UInt8) : Rune.read (String.utf8EncodeChar c ++ tail) =
      .scalar c :: Rune.read tail ∧ Utf8.StartsFresh (String.utf8EncodeChar c ++ tail) :=
    ⟨Rune.read_encode_append c tail, Utf8.startsFresh_encode_append c tail⟩
  cases s with
  | comma => exact hchar ',' tail
  | lineBreak => exact hchar '\n' tail
  | comment text isLine =>
    obtain ⟨hread, hfresh⟩ := hchar '\n' tail
    have hsign := hchar '#' (text ++ (String.utf8EncodeChar '\n' ++ tail))
    rw [Rune.read_append hfresh, hread] at hsign
    have hbytes : (comment text isLine).bytes ++ tail =
        String.utf8EncodeChar '#' ++ (text ++ (String.utf8EncodeChar '\n' ++ tail)) := by
      change 0x23 :: (text ++ [0x0A]) ++ tail = 0x23 :: (text ++ 0x0A :: tail)
      simp
    rw [hbytes]
    simpa [runes] using hsign

namespace Enumeration

theorem read_rest (others : List (Separator × Name)) :
    Rune.read (restBytes others) = restRunes others ∧ Utf8.StartsFresh (restBytes others) := by
  induction others with
  | nil =>
    have hread := Rune.read_encode_append '}' []
    rw [Rune.read_nil] at hread
    exact ⟨hread, Utf8.startsFresh_encode_append '}' []⟩
  | cons o others ih =>
    obtain ⟨hread, hfresh⟩ := ih
    have hvalue : Readable (value o.2) := by simp [value]
    have hread' := (read_pieces_append hvalue hfresh).1
    rw [hread] at hread'
    have hsep := o.1.read_append ((allRunes (value o.2)).flatMap Rune.bytes ++ restBytes others)
    rw [hread'] at hsep
    simpa [restBytes, restRunes] using hsep

theorem read_source (e : Enumeration) :
    Rune.read e.source = allRunes e.opening ++ restRunes e.others := by
  obtain ⟨hread, hfresh⟩ := read_rest e.others
  have hopening : Readable e.opening := by simp [opening]
  rw [source, (read_pieces_append hopening hfresh).1, hread]

/-- What may stand behind a value. -/
theorem head_restRunes (others : List (Separator × Name)) :
    ∃ x ∈ [',', '\n', '#', '}'], (restRunes others).head?.map Rune.char = some x := by
  rcases others with _ | ⟨⟨_ | _ | ⟨text, isLine⟩, v⟩, others⟩
  · exact ⟨'}', by decide, rfl⟩
  · exact ⟨',', by decide, rfl⟩
  · exact ⟨'\n', by decide, rfl⟩
  · exact ⟨'#', by decide, rfl⟩

end Enumeration

/-! ## Scanning values -/

namespace Reads

variable {mode : Mode} {next : Option Char} {fixed : Option Char}

/-- A value and the blanks behind it, with layout in front of it. -/
theorem enumerated_blanks (fixed : Option Char) (v : Name) {cs bs : List Char} {x : Char}
    (hcs : cs.all isSpace = true) (hbs : bs.all isBlank = true) (hx : x ∈ [',', '\n', '#', '}']) :
    Reads mode [.elements .members fixed] [gap cs, v.piece, gap (' ' :: bs)]
      [.separator .members fixed] (some x) := by
  have hall : ∀ y ∈ [',', '\n', '#', '}'],
      (some y).any isBlank = false ∧ Construct.choose .memberRest (some y) = .expand [] := by
    intro y hy
    simp only [List.mem_cons, List.not_mem_nil, or_false] at hy
    rcases hy with rfl | rfl | rfl | rfl <;> exact ⟨rfl, rfl⟩
  obtain ⟨hblank, hrest⟩ := hall x hx
  have hblanks : (' ' :: bs).all isBlank = true := by
    rw [List.all_cons, hbs]
    rfl
  refine element_of_fits fixed (fits_name .members v ?_) hcs
  refine described none (c := ' ') rfl v ?_
  exact (name _ v rfl).step ((Reads.blanks hblanks hblank).step (expand hrest))

/-- A value and the blank behind it, with layout in front of it. -/
theorem enumerated (fixed : Option Char) (v : Name) {cs : List Char} {x : Char}
    (hcs : cs.all isSpace = true) (hx : x ∈ [',', '\n', '#', '}']) :
    Reads mode [.elements .members fixed] [gap cs, v.piece, Piece.blank]
      [.separator .members fixed] (some x) :=
  enumerated_blanks fixed v hcs rfl hx

/-- The block of a type without interfaces and directives is opened. -/
theorem blockHead :
    Reads mode [.construct .typeRest] [mark .braceOpen] [.elements .members none] next := by
  refine (expand rfl).instead ?_
  exact (expand rfl).pass (take rfl)

/-- An enumeration is read up to its first value. -/
theorem enumHead (n : Name) : Reads mode [.name .definition]
    [Piece.word .enum, Piece.blank, n.piece, Piece.blank, mark .braceOpen]
    [.elements .members none] next := by
  have hname : Construct.choose (.typeName .enum) (some n.first) = .expand [] :=
    if_pos (isNameContinue_of_isNameStart n.first_isNameStart)
  have hpass : Reads mode [.construct (.typeName .enum)] [] []
      (front [n.piece, Piece.blank, mark .braceOpen] next) := expand hname
  refine (Reads.word .enum rfl rfl rfl).trans ?_
  refine (Reads.blank n.isBlank_first).step (hpass.pass ?_)
  exact (name _ n rfl).step ((Reads.blank rfl).step blockHead)

/-- An enumeration is read up to its first separator. -/
theorem enumeration (e : Enumeration) {x : Char} (hx : x ∈ [',', '\n', '#', '}']) :
    Reads mode [.name .definition] e.opening [.separator .members none] (some x) := by
  have hlayout : [' '].all isSpace = true := by decide
  have hvalue : Reads mode [.elements .members none] [Piece.blank, e.first.piece, Piece.blank]
      [.separator .members none] (some x) := enumerated none e.first hlayout hx
  exact (enumHead e.name).trans hvalue

end Reads

/-! ## Scanning separators -/

namespace Separator

variable {mode : Mode} {s : Separator} {fixed next : Option Char} {c : Cursor} {tail : List Rune}

theorem not_isLineEnd_of_mem_read {text : List UInt8} (h : 0x0D ∉ text ∧ 0x0A ∉ text) {r : Rune}
    (hr : r ∈ Rune.read text) : (!isLineEnd r.char) = true := by
  rw [Bool.not_eq_true']
  refine Bool.eq_false_iff.mpr fun hend => ?_
  have hchar : r.char = '\r' ∨ r.char = '\n' := by simpa [isLineEnd] using hend
  have hascii : r.char.toNat < 0x80 := by rcases hchar with hc | hc <;> rw [hc] <;> decide
  have hmem := Rune.mem_of_mem_read hr hascii
  rcases hchar with hc | hc
  · rw [hc] at hmem
    exact h.1 hmem
  · rw [hc] at hmem
    exact h.2 hmem

theorem leads_char {x : Char} (hx : Series.members.allows x = true)
    (hfixed : fixed = none ∨ fixed = some x) (hc : c.rest = .scalar x :: tail) :
    ∃ d : Cursor, d.rest = tail ∧
      State.Leads mode ⟨c, [.separator .members fixed]⟩ [] ⟨d, [.elements .members (some x)]⟩ := by
  have hread : Reads mode [.separator .members fixed] [gap [x]] [.elements .members (some x)]
      (tail.head?.map Rune.char) := Reads.separator_char hx hfixed
  obtain ⟨d, hd, hleads⟩ := hread c tail hc rfl
  exact ⟨d, Reads.rest_eq hc hd, hleads []⟩

theorem faults_char {x : Char} (hx : Series.members.allows x = true)
    (hfixed : ¬(fixed = none ∨ fixed = some x)) (hc : c.rest = .scalar x :: tail) :
    State.step mode ⟨c, [.separator .members fixed]⟩ =
      .halt (.fault .mixedSeparators c.offset c.line) c.look := by
  simp only [Series.allows, Bool.and_eq_true, Bool.not_eq_true', decide_eq_true_eq] at hx
  obtain ⟨⟨⟨hmem, hblank⟩, hcomment⟩, hend⟩ := hx
  obtain ⟨y, rfl⟩ := Option.ne_none_iff_exists'.mp fun h => hfixed (.inl h)
  have hne : y ≠ x := fun h => hfixed (.inr (congrArg some h))
  have hsep : x ∈ Series.members.separators := List.contains_iff_mem.mp hmem
  have hstep : State.step mode ⟨c, [.separator .members (some y)]⟩ =
      Step.fail .mixedSeparators c.look c.look := by
    simp [State.step, Step.separator, Reads.peek_of_cons hc, hne, hblank, hcomment, hend, hsep]
  exact hstep

/-- Behind a separator that is allowed only layout lies before the next value. -/
theorem leads (hkeeps : (Goal.separator .members fixed).Keeps) (h : s.fix fixed = some next)
    (hc : c.rest = s.runes ++ tail) :
    ∃ (d : Cursor) (cs : List Char), d.rest = cs.map .scalar ++ tail ∧ cs.all isSpace = true ∧
      State.Leads mode ⟨c, [.separator .members fixed]⟩ [] ⟨d, [.elements .members next]⟩ := by
  cases s with
  | comma =>
    simp only [fix, Option.ite_none_right_eq_some, Option.some.injEq] at h
    obtain ⟨hfixed, rfl⟩ := h
    obtain ⟨d, hd, hleads⟩ := leads_char rfl hfixed hc
    exact ⟨d, [], hd, rfl, hleads⟩
  | lineBreak =>
    simp only [fix, Option.ite_none_right_eq_some, Option.some.injEq] at h
    obtain ⟨hfixed, rfl⟩ := h
    obtain ⟨d, hd, hleads⟩ := leads_char rfl hfixed hc
    exact ⟨d, [], hd, rfl, hleads⟩
  | comment text isLine =>
    simp only [fix, Option.ite_none_left_eq_some, Option.some.injEq] at h
    obtain ⟨hne, rfl⟩ := h
    have hrest : c.rest = (.scalar '#' :: Rune.read text) ++ (.scalar '\n' :: tail) := by
      rw [hc, runes]
      simp
    have hline : ∀ r ∈ .scalar '#' :: Rune.read text, (!isLineEnd r.char) = true :=
      List.forall_mem_cons.mpr ⟨rfl, fun r => not_isLineEnd_of_mem_read isLine⟩
    have hsign : fixed ≠ some '#' := fun h => absurd (hkeeps _ h) (by decide)
    have hstep : State.step mode ⟨c, [.separator .members fixed]⟩ = _ :=
      State.step_separator_comment rfl hsign (Reads.peek_of_cons hrest)
    rw [if_neg hne] at hstep
    refine ⟨_, ['\n'], ?_, rfl, .of_next hstep⟩
    rw [Cursor.rest_skip, Cursor.rest_look, hrest]
    exact (Rune.run_of_all hline rfl).2

theorem faults (h : s.fix fixed = none) (hc : c.rest = s.runes ++ tail) :
    ∃ f start line after, State.step mode ⟨c, [.separator .members fixed]⟩ =
      .halt (.fault f start line) after := by
  cases s with
  | comma =>
    simp only [fix, ite_eq_right_iff, reduceCtorEq, imp_false] at h
    exact ⟨_, _, _, _, faults_char rfl h hc⟩
  | lineBreak =>
    simp only [fix, ite_eq_right_iff, reduceCtorEq, imp_false] at h
    exact ⟨_, _, _, _, faults_char rfl h hc⟩
  | comment text isLine =>
    obtain rfl : fixed = some ',' := by simpa [fix] using h
    exact ⟨_, _, _, _, State.step_separator_comment rfl (by decide) (Reads.peek_of_cons hc)⟩

theorem keeps_fix (hkeeps : (Goal.separator .members fixed).Keeps) (h : s.fix fixed = some next) :
    (Goal.separator .members next).Keeps := by
  cases s with
  | comma =>
    simp only [fix, Option.ite_none_right_eq_some, Option.some.injEq] at h
    obtain ⟨-, rfl⟩ := h
    rintro x ⟨rfl⟩
    decide
  | lineBreak =>
    simp only [fix, Option.ite_none_right_eq_some, Option.some.injEq] at h
    obtain ⟨-, rfl⟩ := h
    rintro x ⟨rfl⟩
    decide
  | comment text isLine =>
    simp only [fix, Option.ite_none_left_eq_some, Option.some.injEq] at h
    obtain ⟨-, rfl⟩ := h
    exact hkeeps

/-! ## Separators in a row -/

theorem foldlM_comma (seps : List Separator) :
    (seps.foldlM fix (some ',')).isSome = true ↔ ∀ s ∈ seps, s.isComma = true := by
  induction seps with
  | nil => simp
  | cons s seps ih => cases s <;> simp [List.foldlM_cons, fix, isComma, ih]

theorem foldlM_lineBreak (seps : List Separator) :
    (seps.foldlM fix (some '\n')).isSome = true ↔ ∀ s ∈ seps, s.isComma = false := by
  induction seps with
  | nil => simp
  | cons s seps ih => cases s <;> simp [List.foldlM_cons, fix, isComma, ih]

/-- Comments first, and only commas behind them. -/
def CommasLast (seps : List Separator) : Prop :=
  ∃ comments commas, seps = comments ++ commas ∧ (∀ s ∈ comments, s.isComment = true) ∧
    ∀ s ∈ commas, s.isComma = true

theorem commasLast_cons {s : Separator} {seps : List Separator} : CommasLast (s :: seps) ↔
    (s.isComment = true ∧ CommasLast seps) ∨ ∀ t ∈ s :: seps, t.isComma = true := by
  constructor
  · rintro ⟨comments, commas, hseps, hcomments, hcommas⟩
    cases comments with
    | nil =>
      obtain rfl : s :: seps = commas := hseps
      exact .inr hcommas
    | cons t comments =>
      cases hseps
      obtain ⟨hs, hcomments⟩ := List.forall_mem_cons.mp hcomments
      exact .inl ⟨hs, comments, commas, rfl, hcomments, hcommas⟩
  · rintro (⟨hs, comments, commas, rfl, hcomments, hcommas⟩ | hcommas)
    · exact ⟨s :: comments, commas, rfl, List.forall_mem_cons.mpr ⟨hs, hcomments⟩, hcommas⟩
    · exact ⟨[], s :: seps, rfl, List.forall_mem_nil _, hcommas⟩

theorem foldlM_none (seps : List Separator) : (seps.foldlM fix none).isSome = true ↔
    (∀ s ∈ seps, s.isComma = false) ∨ CommasLast seps := by
  induction seps with
  | nil => simp
  | cons s seps ih =>
    rw [commasLast_cons]
    cases s <;> simp [List.foldlM_cons, fix, isComma, isComment, foldlM_comma, foldlM_lineBreak, ih]

end Separator

/-! ## Scanning enumerations -/

namespace Enumeration

variable {mode : Mode}

/-- Behind a value the scan reaches the end exactly if all separators are allowed. -/
theorem trace_rest (others : List (Separator × Name)) {fixed : Option Char} {c : Cursor}
    (hkeeps : (Goal.separator .members fixed).Keeps) (hc : c.rest = restRunes others) :
    (∃ stop line, (State.trace mode ⟨c, [.separator .members fixed]⟩).terminal = .eof stop line) ↔
      ((others.map (·.1)).foldlM Separator.fix fixed).isSome = true := by
  -- what the scan knows of the separators that it has passed is `fixed`
  induction others generalizing fixed c with
  | nil =>
    have hsign : fixed ≠ some Mark.braceClose.char := fun h => absurd (hkeeps _ h) (by decide)
    have hread : Reads mode [.separator .members fixed] [mark .braceClose] [] none :=
      Reads.separator_close rfl hsign
    obtain ⟨d, hd, hleads⟩ := hread c [] hc rfl
    have hend := congrArg Trace.terminal (hleads [])
    rw [List.append_nil, List.append_nil,
      State.trace_of_halt (step_at_end (Reads.rest_eq hc hd))] at hend
    exact iff_of_true ⟨_, _, hend⟩ rfl
  | cons o others ih =>
    have hrest : c.rest = o.1.runes ++ (allRunes (value o.2) ++ restRunes others) := by
      rw [hc]
      simp [restRunes]
    rw [List.map_cons, List.foldlM_cons]
    cases hfix : o.1.fix fixed with
    | none =>
      obtain ⟨f, start, line, after, hstep⟩ : ∃ f start line after,
          State.step mode ⟨c, [.separator .members fixed]⟩ = .halt (.fault f start line) after :=
        Separator.faults hfix hrest
      rw [State.trace_of_halt hstep]
      simp
    | some next =>
      obtain ⟨d, cs, hd, hcs, hleads⟩ := Separator.leads hkeeps hfix hrest
      obtain ⟨x, hx, hhead⟩ := head_restRunes others
      have hlayout : (cs ++ [' ']).all isSpace = true := by
        rw [List.all_append, hcs]
        rfl
      have hread : Reads mode [.elements .members next] [gap cs, gap [' '], o.2.piece, blank]
          [.separator .members next] (some x) := Reads.gap_gap (Reads.enumerated next o.2 hlayout hx)
      have hd' : d.rest = allRunes [gap cs, gap [' '], o.2.piece, blank] ++ restRunes others := by
        rw [hd]
        simp [value, runes, blank]
      obtain ⟨e, he, hleads'⟩ := hread d _ hd' hhead
      have hend := congrArg Trace.terminal (hleads.trans (hleads' []))
      rw [hend]
      exact ih (Separator.keeps_fix hkeeps hfix) (Reads.rest_eq hd' he)

/-- The scan of an enumeration reaches the end exactly if all separators are allowed. -/
theorem trace_source (e : Enumeration) :
    (∃ stop line, (Trace.ofSource mode e.source).terminal = .eof stop line) ↔
      (e.separators.foldlM Separator.fix none).isSome = true := by
  have hinitial : State.initial e.source = ⟨Cursor.start (Rune.read e.source), []⟩ := by
    have hfront : (Cursor.start (Rune.read e.source)).peek = some 'e' := by
      rw [read_source]
      rfl
    rw [State.initial, hfront]
    rfl
  obtain ⟨x, hx, hhead⟩ := head_restRunes e.others
  obtain ⟨d, hd, hleads⟩ :=
    Reads.enumeration e hx (Cursor.start (Rune.read e.source)).look _ (read_source e) hhead
  have hstep : State.step mode ⟨Cursor.start (Rune.read e.source), []⟩ =
      State.step mode ⟨(Cursor.start (Rune.read e.source)).look, [.name .definition]⟩ := by
    rw [read_source]
    rfl
  have hend := congrArg Trace.terminal ((State.Leads.of_step_eq hstep).trans (hleads []))
  have hkeeps : (Goal.separator .members none).Keeps := by simp
  rw [Trace.ofSource, hinitial, hend]
  exact trace_rest e.others hkeeps (Reads.rest_eq (read_source e) hd)

end Enumeration

end Schema

open Schema in
/-- The scan of an enumeration reaches the end exactly if no separator is a comma or all separators behind
some comments are commas. -/
theorem Document.scan_enumeration (doc : Document) (e : Enumeration) (mode : Mode) :
    ∃ items after, { doc with size := e.source.length }.scan e.source mode = .ok (items, after) ∧
      (items.getLast?.map (·.kind) = some .eof ↔
        (∀ s ∈ e.separators, s.isComma = false) ∨ Separator.CommasLast e.separators) := by
  refine ⟨_, _, if_pos rfl, ?_⟩
  rw [Trace.last_item_eq_eof, Enumeration.trace_source, Separator.foldlM_none]

open Schema in
/-- An enumeration with a comment and a comma between its values, whose scan reaches the end. -/
theorem Document.scan_mixed_enumeration :
    ∃ e : Enumeration, e.source = "enum E \x7b A #\n B , C \x7d".toUTF8.data.toList ∧
      (∃ s ∈ e.separators, s.isComma = true) ∧ (∃ s ∈ e.separators, s.isComma = false) ∧
      ∃ items after, ({ name := "a", base := 1, size := 21 } : Document).scan e.source {} =
        .ok (items, after) ∧ items.getLast?.map (·.kind) = some .eof := by
  let name (c : Char) (h : isNameStart c = true) : Name := ⟨c, [], h, List.forall_mem_nil _⟩
  let e : Enumeration := ⟨name 'E' rfl, name 'A' rfl,
    [(.comment [] ⟨List.not_mem_nil, List.not_mem_nil⟩, name 'B' rfl), (.comma, name 'C' rfl)]⟩
  refine ⟨e, by decide +kernel, ⟨.comma, by simp [e, Enumeration.separators], rfl⟩,
    ⟨_, List.mem_cons_self, rfl⟩, _, _, if_pos (by decide +kernel), ?_⟩
  decide +kernel

end SchemaScan
