import Mathlib.Tactic.Tauto
import SchemaScan.Proofs.Schema.Reads

/-! # Reading series

A series is read part by part. What separates two parts, and what stands behind the last one, is left
to the separator goal, which keeps in mind the separator that it has seen first.
-/
namespace SchemaScan

namespace Series

/-- An element of the series may start with the character. -/
def starts (s : Series) (x : Char) : Bool := !isSpace x && !s.isEnd x && x ≠ '#'

/-- The character separates elements, and is neither a blank nor an end of the series. -/
def allows (s : Series) (x : Char) : Bool :=
  s.separators.contains x && !isBlank x && x ≠ '#' && !s.isEnd x

theorem ne_of_allows {s : Series} {m : Mark} {x : Char} (hs : s.ending = .closing m)
    (h : s.allows x = true) : m.char ≠ x := by
  rintro rfl
  simp [allows, isEnd, hs] at h

/-- The characters that end a series. -/
theorem mem_of_isEnd {s : Series} {x : Char} (h : s.isEnd x = true) :
    x ∈ [')', '}', ']', '\r', '\n', '@', '{', '=', ','] := by
  have hall : isLineEnd x = true ∨ x ∈ [')', '}', ']', '@', '{', '=', ','] := by
    unfold isEnd at h
    split at h
    · rename_i m hm
      right
      rw [of_decide_eq_true h]
      cases s with
      | directives site => cases site <;> cases hm
      | _ => cases hm <;> decide
    · rename_i stops hm
      rw [Bool.or_eq_true, List.contains_iff_mem] at h
      have hstops : ∀ y ∈ stops, y ∈ [')', '}', ']', '@', '{', '=', ','] := by
        cases s with
        | directives site => cases site <;> cases hm <;> simp
        | _ => cases hm <;> simp
      exact h.imp_right (hstops x)
  simp only [isLineEnd, Bool.or_eq_true, decide_eq_true_eq, List.mem_cons] at hall ⊢
  tauto

/-- Nothing that ends a series is a blank, starts a comment or stands in a name. -/
theorem notEnd_of_isEnd {s : Series} {x : Char} (h : s.isEnd x = true) :
    isBlank x = false ∧ x ≠ '#' ∧ isNameContinue x = false := by
  have hall : [')', '}', ']', '\r', '\n', '@', '{', '=', ','].all
      (fun x => !isBlank x && x ≠ '#' && !isNameContinue x) = true := by decide
  have := List.all_eq_true.mp hall x (mem_of_isEnd h)
  simp only [Bool.and_eq_true, Bool.not_eq_true', decide_eq_true_eq] at this
  exact ⟨this.1.1, this.1.2, this.2⟩

/-- An element may start with a character of names. -/
theorem starts_of_isNameContinue (s : Series) {x : Char} (hcontinue : isNameContinue x = true) :
    s.starts x = true := by
  have hspace : isSpace x = false := by
    cases hs : isSpace x with
    | false => rfl
    | true =>
      simp only [isSpace, Bool.or_eq_true, decide_eq_true_eq] at hs
      rcases hs with ((rfl | rfl) | rfl) | rfl <;> exact absurd hcontinue (by decide)
  have hend : s.isEnd x = false := by
    cases he : s.isEnd x with
    | false => rfl
    | true => rw [(notEnd_of_isEnd he).2.2] at hcontinue; cases hcontinue
  have hcomment : x ≠ '#' := by
    rintro rfl
    exact absurd hcontinue (by decide)
  simp [starts, hspace, hend, hcomment]

end Series

namespace Schema

open Piece

namespace Reads

variable {mode : Mode} {s : Series} {sep : Char} {fixed : Option Char} {next : Option Char}

/-! ## In front of an element -/

theorem elements_layout {cs : List Char} (hcs : cs.all isSpace = true)
    (hnext : next.any isSpace = false) :
    Reads mode [.elements s fixed] [gap cs] [.elements s fixed] next := by
  intro c tail hc ht
  simp only [allRunes_cons, allRunes_nil, List.append_nil, runes] at hc ⊢
  rw [← ht] at hnext
  have hskip := skip_gap hc hcs hnext
  refine ⟨_, hskip, ?_⟩
  intro more
  apply State.Leads.of_step_eq
  simp only [List.cons_append, List.nil_append, State.step, Step.elements, c.skip_skip]

theorem elements_start (fixed : Option Char) {x : Char} (hx : s.starts x = true) :
    Reads mode [.elements s fixed] [] (Goal.element s ++ [.separator s fixed]) (some x) := by
  simp only [Series.starts, Bool.and_eq_true, Bool.not_eq_true', decide_eq_true_eq] at hx
  obtain ⟨⟨hspace, hend⟩, hcomment⟩ := hx
  apply of_look
  intro c hc
  have hskip := skip_nothing (p := isSpace) (c := c) (hc ▸ hspace)
  have hpeek : (c.skip isSpace).peek = some x := by
    rw [← hc, Cursor.peek, Cursor.peek, hskip.rest]
    rfl
  refine ⟨_, hskip, ?_⟩
  intro more
  simp [State.step, Step.elements, hpeek, hend, hcomment]

theorem elements_close {m : Mark} (hs : s.ending = .closing m) :
    Reads mode [.elements s fixed] [mark m] [] next := by
  have hspace : isSpace m.char = false := by
    cases m <;> decide
  apply of_token
  intro c tail hc ht
  have hskip : c.Crosses [] (c.skip isSpace) := skip_nothing (by rw [Cursor.peek, hc]; exact hspace)
  have hrest : (c.skip isSpace).rest = c.rest := hskip.rest.symm
  have hpeek : (c.skip isSpace).peek = some m.char := by
    rw [Cursor.peek, hrest, hc]
    rfl
  have htaken : (c.skip isSpace).rest.take 1 = [.scalar m.char] := by
    rw [hrest, hc]
    rfl
  have hnext := Cursor.Crosses.next (c.skip isSpace)
  rw [htaken] at hnext
  have hend : s.isEnd m.char = true := by
    simp [Series.isEnd, hs]
  have hoffset : (c.skip isSpace).offset = c.offset := hskip.offset
  refine ⟨_, hskip.trans hnext, ?_⟩
  intro more
  have hstep : State.step mode ⟨c, .elements s fixed :: more⟩ =
      Step.mark m (c.skip isSpace) more := by
    simp [State.step, Step.elements, hpeek, hend, Step.leave, hs]
  rw [Step.mark, Step.token, htaken, hoffset] at hstep
  exact hstep

/-! ## Behind an element -/

theorem peek_of_cons {c : Cursor} {x : Char} {tail : List Rune} (hc : c.rest = .scalar x :: tail) :
    c.peek = some x := by
  rw [Cursor.peek, hc]
  rfl

/-- Blanks behind an element, where they separate nothing. -/
theorem separator_blank (hs : s.isBlankSeparated = false) (hfixed : fixed ≠ some ' ')
    (hnext : next.any isBlank = false) :
    Reads mode [.separator s fixed] [Piece.blank] [.separator s fixed] next := by
  apply of_gap
  intro c tail hc ht
  rw [← ht] at hnext
  have hskip := skip_gap (c := c.look) hc (by decide) hnext
  refine ⟨_, hskip.of_look, ?_⟩
  intro more
  have hblank : isBlank ' ' = true := rfl
  simp [State.step, Step.separator, peek_of_cons hc, hfixed, hs, hblank]

/-- A separator, the first one or the same as the first one. -/
theorem separator_char (hsep : s.allows sep = true) (hfixed : fixed = none ∨ fixed = some sep) :
    Reads mode [.separator s fixed] [gap [sep]] [.elements s (some sep)] next := by
  simp only [Series.allows, Bool.and_eq_true, Bool.not_eq_true', decide_eq_true_eq] at hsep
  obtain ⟨⟨⟨hmem, hblank⟩, hcomment⟩, hend⟩ := hsep
  apply of_gap
  intro c tail hc ht
  have hcross := Cursor.Crosses.next c.look
  rw [Cursor.rest_look, hc] at hcross
  refine ⟨_, hcross.of_look, ?_⟩
  intro more
  rcases hfixed with rfl | rfl
  · simp only [List.contains_eq_mem, decide_eq_true_eq] at hmem
    simp [State.step, Step.separator, peek_of_cons hc, hmem, hblank, hcomment, hend]
  · simp [State.step, Step.separator, peek_of_cons hc]

/-- The closing mark right behind an element. -/
theorem separator_close {m : Mark} (hs : s.ending = .closing m) (hfixed : fixed ≠ some m.char) :
    Reads mode [.separator s fixed] [mark m] [] next := by
  have hend : s.isEnd m.char = true := by
    simp [Series.isEnd, hs]
  obtain ⟨hblank, hcomment, -⟩ := Series.notEnd_of_isEnd hend
  apply of_token
  intro c tail hc ht
  have hcross := Cursor.Crosses.next c.look
  rw [Cursor.rest_look, hc] at hcross
  refine ⟨_, hcross.of_look, ?_⟩
  intro more
  have hstep : State.step mode ⟨c, .separator s fixed :: more⟩ = Step.mark m c.look more := by
    simp [State.step, Step.separator, peek_of_cons hc, hfixed, hblank, hcomment, hend, Step.leave, hs]
  have htaken : c.look.rest.take 1 = [.scalar m.char] := by
    rw [Cursor.rest_look, hc]
    rfl
  rw [Step.mark, Step.token, htaken] at hstep
  exact hstep

/-- What ends a line series stays where it is. -/
theorem separator_leave (hs : s.endsAtLine = true) (hfixed : fixed.any s.isEnd = false)
    (hnext : next.all s.isEnd = true) :
    Reads mode [.separator s fixed] [] [] next := by
  apply of_look
  intro c hc
  refine ⟨c.look, (Cursor.Crosses.refl c).look, ?_⟩
  intro more
  cases hn : next with
  | none => simp [State.step, Step.separator, hc, hn, hs]
  | some x =>
    rw [hn] at hnext
    have hend : s.isEnd x = true := hnext
    obtain ⟨hblank, hcomment, -⟩ := Series.notEnd_of_isEnd hend
    have hne : fixed ≠ some x := by
      rintro rfl
      rw [Option.any_some, hend] at hfixed
      cases hfixed
    obtain ⟨stops, hline⟩ := Series.ending_of_endsAtLine hs
    simp [State.step, Step.separator, hc, hn, hne, hblank, hcomment, hend, Step.leave, hline]

/-- A blank behind an element, where it separates. -/
theorem separator_part {x : Char} (hs : s.isBlankSeparated = true) (hx : s.starts x = true) :
    Reads mode [.separator s none] [Piece.blank] [.elements s none] (some x) := by
  simp only [Series.starts, Bool.and_eq_true, Bool.not_eq_true', decide_eq_true_eq] at hx
  obtain ⟨⟨hspace, hend⟩, -⟩ := hx
  rw [isSpace_eq, Bool.or_eq_false_iff] at hspace
  apply of_gap
  intro c tail hc ht
  have hskip := skip_gap (c := c.look) (p := isBlank) hc (by decide) (by rw [ht]; exact hspace.1)
  refine ⟨_, hskip.of_look, ?_⟩
  intro more
  have hblank : isBlank ' ' = true := rfl
  have hpeek : (c.look.skip isBlank).peek = some x := by
    have hrest := hskip.rest
    rw [Cursor.rest_look, hc] at hrest
    rw [Cursor.peek, ← List.append_cancel_left hrest, ht]
  simp [State.step, Step.separator, peek_of_cons hc, hs, hblank, hpeek, hend]

/-- A blank behind the last element, where blanks separate. -/
theorem separator_leave_blank (hs : s.isBlankSeparated = true) (hnext : next.all s.isEnd = true) :
    Reads mode [.separator s none] [Piece.blank] [] next := by
  apply of_gap
  intro c tail hc ht
  have hstop : (tail.head?.map Rune.char).any isBlank = false := by
    rw [ht]
    cases next with
    | none => rfl
    | some x => exact (Series.notEnd_of_isEnd hnext).1
  have hskip := skip_gap (c := c.look) (p := isBlank) hc (by decide) hstop
  refine ⟨_, hskip.of_look, ?_⟩
  intro more
  have hblank : isBlank ' ' = true := rfl
  have hpeek : (c.look.skip isBlank).peek.all s.isEnd = true := by
    have hrest := hskip.rest
    rw [Cursor.rest_look, hc] at hrest
    rw [Cursor.peek, ← List.append_cancel_left hrest, ht]
    exact hnext
  simp [State.step, Step.separator, peek_of_cons hc, hs, hblank, hpeek]

/-! ## Whole series -/

theorem no_layout : ([] : List Char).all isSpace = true := rfl

/-- The pieces are an element in front of the character `next`. -/
def Fits (mode : Mode) (s : Series) (part : List Piece) (next : Option Char) : Prop :=
  (∃ x, (∀ n, front part n = some x) ∧ s.starts x = true) ∧
    Reads mode (Goal.element s) part [] next

/-- An element, with layout in front of it. -/
theorem element_of_fits (fixed : Option Char) {part : List Piece} {cs : List Char} (h : Fits mode s part next)
    (hcs : cs.all isSpace = true) :
    Reads mode [.elements s fixed] (gap cs :: part) [.separator s fixed] next := by
  obtain ⟨⟨x, hx, hstarts⟩, hread⟩ := h
  have hspace : isSpace x = false := by
    simp only [Series.starts, Bool.and_eq_true, Bool.not_eq_true'] at hstarts
    exact hstarts.1.1
  have hlayout : Reads mode [.elements s fixed] [gap cs] [.elements s fixed] (front part next) :=
    elements_layout hcs (by rw [hx]; exact hspace)
  have hstart : Reads mode [.elements s fixed] [] (Goal.element s ++ [.separator s fixed])
      (front part next) := by
    rw [hx]
    exact elements_start fixed hstarts
  exact hlayout.trans ((nil.trans hstart).trans (hread.frame [.separator s fixed]))

/-- Elements with a separator between each two of them, in front of what ends the series. -/
theorem separated (join : List Piece) {finish : List Piece} {j : Char} {parts : List (List Piece)} {part : List Piece}
    {cs : List Char} (hcs : cs.all isSpace = true) (hfixed : fixed = none ∨ fixed = some sep)
    (hfront : ∀ n, front join n = some j)
    (hjoin : ∀ fixed n, fixed = none ∨ fixed = some sep →
      Reads mode [.separator s fixed] join [.elements s (some sep)] n)
    (hfinish : ∀ fixed, fixed = none ∨ fixed = some sep →
      Reads mode [.separator s fixed] finish [] next)
    (hparts : ∀ p ∈ part :: parts, Fits mode s p (some j) ∧ Fits mode s p (front finish next)) :
    Reads mode [.elements s fixed]
      (gap cs :: (Piece.separated (join ++ [Piece.blank]) (part :: parts) ++ finish)) [] next := by
  induction parts generalizing part cs fixed with
  | nil =>
    have hread := element_of_fits fixed (hparts part List.mem_cons_self).2 hcs
    have := hread.trans (hfinish fixed hfixed)
    simpa [Piece.separated] using this
  | cons second parts ih =>
    have hread := element_of_fits fixed (hparts part List.mem_cons_self).1 hcs
    have hblank : [' '].all isSpace = true := by decide
    have hrest := ih hblank (.inr rfl) fun p hp => hparts p (List.mem_cons_of_mem _ hp)
    have hjoined := (hjoin fixed _ hfixed).trans hrest
    have := Reads.trans (by rw [front_append, hfront]; exact hread) hjoined
    simpa [Piece.separated, Piece.blank] using this

/-- Elements with commas between them, right between their brackets. -/
theorem commas {m : Mark} {parts : List (List Piece)} (hs : s.ending = .closing m)
    (hcomma : s.allows ',' = true) (hfixed : fixed = none ∨ fixed = some ',')
    (hparts : ∀ p ∈ parts, Fits mode s p (some ',') ∧ Fits mode s p (some m.char)) :
    Reads mode [.elements s fixed] (Piece.commas parts ++ [mark m]) [] next := by
  have hne := Series.ne_of_allows hs hcomma
  cases parts with
  | nil => exact elements_close hs
  | cons part parts =>
    apply gap_nil_iff.mp
    apply separated [gap [',']] no_layout hfixed (fun _ => front_gap ..)
    · intro fixed n hfixed
      exact separator_char hcomma hfixed
    · intro fixed hfixed
      apply separator_close hs
      rcases hfixed with rfl | rfl
      · simp
      · simpa using hne.symm
    · exact hparts

/-- Elements with commas between them and a blank behind the last one. -/
theorem commas_blank {m : Mark} {parts : List (List Piece)} (hs : s.ending = .closing m)
    (hblank : s.isBlankSeparated = false) (hcomma : s.allows ',' = true)
    (hparts : ∀ p ∈ parts, Fits mode s p (some ',') ∧ Fits mode s p (some ' ')) :
    Reads mode [.elements s none] (Piece.blank :: (Piece.commas parts ++ [Piece.blank, mark m]))
      [] next := by
  have hlayout : [' '].all isSpace = true := by decide
  have hmark : isSpace m.char = false ∧ isBlank m.char = false := by
    cases m <;> decide
  have hne := Series.ne_of_allows hs hcomma
  cases parts with
  | nil =>
    -- both blanks stand in front of the closing mark
    have hgap : Reads mode [.elements s none] [gap [' ', ' ']] [.elements s none] (some m.char) :=
      elements_layout (by decide) hmark.1
    have hclose : Reads mode [.elements s none] [gap [' ', ' '], mark m] [] next :=
      hgap.trans (elements_close hs)
    exact gap_gap hclose
  | cons part parts =>
    apply separated [gap [',']] hlayout (.inl rfl) (fun _ => front_gap ..)
    · intro fixed n hfixed
      exact separator_char hcomma hfixed
    · intro fixed hfixed
      have hfixed' : fixed ≠ some ' ' ∧ fixed ≠ some m.char := by
        rcases hfixed with rfl | rfl
        · simp
        · exact ⟨by decide, by simpa using hne.symm⟩
      have hgap : Reads mode [.separator s fixed] [Piece.blank] [.separator s fixed]
          (some m.char) := separator_blank hblank hfixed'.1 hmark.2
      exact hgap.trans (separator_close hs hfixed'.2)
    · exact hparts

/-- Elements with a line break behind each of them, in front of a closing mark. -/
theorem lines {m : Mark} {parts : List (List Piece)} {cs : List Char} (hs : s.ending = .closing m)
    (hsep : s.allows '\n' = true) (hcs : cs.all isSpace = true)
    (hfixed : fixed = none ∨ fixed = some '\n')
    (hparts : ∀ p ∈ parts, Fits mode s p (some '\n')) :
    Reads mode [.elements s fixed] (gap cs :: (Piece.lines parts ++ [mark m])) [] next := by
  induction parts generalizing cs fixed with
  | nil =>
    have hspace : isSpace m.char = false := by
      cases m <;> decide
    have hlayout : Reads mode [.elements s fixed] [gap cs] [.elements s fixed] (some m.char) :=
      elements_layout hcs hspace
    exact hlayout.trans (elements_close hs)
  | cons part parts ih =>
    have hread := element_of_fits fixed (hparts part List.mem_cons_self) hcs
    have hrest := ih no_layout (.inr rfl) fun p hp => hparts p (List.mem_cons_of_mem _ hp)
    have := hread.trans ((separator_char hsep hfixed).trans (gap_nil_iff.mp hrest))
    simpa [Piece.lines, Piece.lineBreak] using this

/-- Elements with a blank between each two of them. -/
theorem blankSeparated {parts : List (List Piece)} {part finish : List Piece}
    (hs : s.isBlankSeparated = true)
    (hfinish : Reads mode [.separator s none] finish [] next)
    (hparts : ∀ p ∈ part :: parts, Fits mode s p (some ' ') ∧ Fits mode s p (front finish next)) :
    Reads mode [.elements s none] (part ++ (spaced parts ++ finish)) [] next := by
  induction parts generalizing part with
  | nil =>
    have hread := element_of_fits none (hparts part List.mem_cons_self).2 no_layout
    have := (gap_nil_iff.mp hread).trans hfinish
    simpa [spaced] using this
  | cons second parts ih =>
    have hread := element_of_fits none (hparts part List.mem_cons_self).1 no_layout
    have hrest := ih fun p hp => hparts p (List.mem_cons_of_mem _ hp)
    obtain ⟨⟨x, hx, hstarts⟩, -⟩ := (hparts second (by simp)).1
    have hblank : Reads mode [.separator s none] [Piece.blank] [.elements s none]
        (front (second ++ (spaced parts ++ finish)) next) := by
      rw [front_append, hx]
      exact separator_part hs hstarts
    have := (gap_nil_iff.mp hread).trans (hblank.trans hrest)
    simpa [spaced] using this

end Reads

end Schema

end SchemaScan
