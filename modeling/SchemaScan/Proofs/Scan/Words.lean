import SchemaScan.Proofs.Scan.Moves

/-! # Tokens of a scanner

The loops that take a string, a number or a segment of a name stop where the recognisers of these
tokens do, and say the same about what they have taken.
-/
namespace SchemaScan

namespace Cursor

variable {c d e : Cursor} {input : Input}

namespace Crosses

/-- What is left of a stretch behind its first part. -/
theorem cancel {a b : List Rune} (h : c.Crosses a d) (h' : c.Crosses (a ++ b) e) : d.Crosses b e := by
  refine ⟨?_, ?_, ?_⟩
  · have hr := h'.rest
    rw [h.rest, List.append_assoc] at hr
    exact List.append_cancel_left hr
  · rw [h'.offset, h.offset, Rune.span_append, Nat.add_assoc]
  · rw [h'.line, h.line, Rune.lineFeeds_append, Nat.add_assoc]

theorem unique {a : List Rune} (h : c.Crosses a d) (h' : c.Crosses a e) : d.Crosses [] e :=
  h.cancel (by rwa [List.append_nil])

theorem width (h : c.Crosses [] d) : c.width = d.width := by
  rw [Cursor.width, Cursor.width, h.rest, List.nil_append]

theorem spanning (h : d.Crosses [] e) (found : List Item) (w : Nat) :
    Head.spanning found c d w = Head.spanning found c e w := by
  have ho := h.offset
  have hl := h.line
  simp only [Rune.span_nil, Rune.lineFeeds_nil, Nat.add_zero] at ho hl
  rw [Head.spanning, Head.spanning, ho, hl]

end Crosses

theorem offset_skip_eq_iff {p : Char → Bool} :
    (c.skip p).offset = c.offset ↔ Rune.run p c.rest = [] := by
  rw [(Crosses.skip p c).offset]
  constructor
  · intro h
    by_cases hne : Rune.run p c.rest = []
    · exact hne
    · have := Rune.span_pos hne
      omega
  · intro h
    rw [h]
    rfl

theorem next_crosses {r : Rune} {rest : List Rune} (h : c.rest = r :: rest) : c.Crosses [r] c.next := by
  have := Crosses.next c
  rwa [h] at this

theorem next_crosses_nil (h : c.rest = []) : c.Crosses [] c.next := by
  have := Crosses.next c
  rwa [h] at this

theorem peek_of_rest {r : Rune} {rest : List Rune} (h : c.rest = r :: rest) : c.peek = some r.char := by
  rw [peek, h]
  rfl

theorem peek_of_nil (h : c.rest = []) : c.peek = none := by
  rw [peek, h]
  rfl

end Cursor

/-! ## Strings -/

namespace StringLiteral

/-- A run of quotes has as many bytes as quotes. -/
theorem span_quotes {rs : List Rune} (h : ∀ r ∈ rs, isQuote r.char = true) :
    Rune.span rs = rs.length := by
  induction rs with
  | nil => rfl
  | cons r rs ih =>
    have hr : r.width = 1 := by
      have hq := h r List.mem_cons_self
      cases r with
      | scalar c =>
        rw [isQuote, Rune.char, decide_eq_true_eq] at hq
        subst hq
        rfl
      | stray b => rfl
    rw [Rune.span_cons, hr, ih fun s hs => h s (List.mem_cons_of_mem _ hs), List.length_cons,
      Nat.add_comm]

theorem span_run_quotes (rs : List Rune) :
    Rune.span (Rune.run isQuote rs) = (Rune.run isQuote rs).length :=
  span_quotes (List.all_eq_true.mp List.all_takeWhile)

/-- How many quotes open and close a string. -/
def delimiter (block : Bool) : Nat := if block then 3 else 1

end StringLiteral

namespace Scanner

open StringLiteral

variable {input : Input} {expected found : List Item} {c d e : Cursor} {w : Nat}

theorem run_of_rest {r : Rune} {rest : List Rune} (hrs : d.rest = r :: rest)
    (hq : isQuote r.char = true) : Rune.run isQuote d.rest = r :: Rune.run isQuote rest := by
  rw [hrs, Rune.run, List.takeWhile_cons, if_pos hq]
  rfl

/-- A run of quotes inside a string is counted from its first quote on. -/
theorem ends_quotes (hd : d.Sits input) {r : Rune} {rest : List Rune} (hrs : d.rest = r :: rest)
    (hq : isQuote r.char = true) {Q : Nat → Head → Prop} :
    Ends input expected quotes (.spanning found c d.next d.width) Q ↔
      Q (Rune.run isQuote d.rest).length (.spanning found c (d.skip isQuote) (d.skip isQuote).width) := by
  have hrun := span_run_quotes d.rest
  have hone : Rune.span [r] = [r].length := span_quotes (by simpa using hq)
  have hnext := (Cursor.next_crosses hrs).offset
  have hskip := (Cursor.Crosses.skip isQuote d).offset
  rw [hone, List.length_singleton] at hnext
  rw [hrun] at hskip
  simp only [quotes, ends_bind, ends_get]
  rw [ends_minus (by rw [Head.spanning, hnext]; exact Nat.le_add_left ..), ends_acceptRun hd.next,
    Cursor.skip_next (by rw [Cursor.peek_of_rest hrs]; exact hq)]
  simp only [Head.spanning, hnext, hskip, Nat.add_sub_cancel]
  rw [ends_minus (Nat.le_add_right ..), Nat.add_sub_cancel_left]

theorem ends_stringBodyWithin (hd : d.Sits input) {block : Bool} {rounds : Nat}
    (hle : d.rest.length ≤ rounds) (hx : d.Crosses (body (delimiter block) d.rest).taken e)
    {Q : Bool → Head → Prop} :
    Ends input expected (stringBodyWithin block (rounds + 1)) (.spanning found c d w) Q ↔
      Q (body (delimiter block) d.rest).value (.spanning found c e e.width) := by
  generalize hrs : d.rest = rs at hx hle ⊢
  rw [stringBodyWithin, ends_bind, ends_next hd]
  fun_induction body (delimiter block) rs generalizing d rounds with
  | case1 =>
    rw [Cursor.peek_of_nil hrs, ends_pure, ((Cursor.next_crosses_nil hrs).unique hx).spanning, hx.width]
  | case2 r hr =>
    have hn := (Cursor.next_crosses hrs).unique hx
    have hnil : d.next.rest = [] := by rw [Cursor.rest_next, hrs]; rfl
    simp only [Cursor.peek_of_rest hrs, hr, ↓reduceIte, ends_bind, ends_next hd.next,
      Cursor.peek_of_nil hnil, ends_pure]
    rw [((Cursor.next_crosses_nil hnil).unique hn).spanning, hn.width]
  | case3 r hr escaped rest ih =>
    have hrest : d.next.rest = escaped :: rest := by rw [Cursor.rest_next, hrs]; rfl
    have hn := (Cursor.next_crosses hrs).cancel hx
    have hnn := (Cursor.next_crosses hrest).cancel hn
    obtain ⟨rounds, rfl⟩ := Nat.exists_eq_add_one_of_ne_zero (Nat.ne_zero_of_lt hle)
    rw [List.length_cons, List.length_cons] at hle
    simp only [Cursor.peek_of_rest hrs, hr, ↓reduceIte, ends_bind, ends_next hd.next,
      Cursor.peek_of_rest hrest, reduceCtorEq]
    rw [stringBodyWithin, ends_bind, ends_next hd.next.next]
    exact ih hd.next.next (by rw [Cursor.rest_next, hrest]; rfl) hnn (by omega)
  | case4 r rest hr hq =>
    rename_i run hlt ih
    have hskip := Cursor.Crosses.skip isQuote d
    have hc : r.char = '"' := by simpa [isQuote] using hq
    have hshort : ¬ 3 ≤ (r :: Rune.run isQuote rest).length := by
      cases block with
      | false => exact absurd hlt (by simp [delimiter])
      | true => exact Nat.not_le.mpr hlt
    have hafter : (Rune.afterRun isQuote rest).length ≤ rest.length :=
      (List.dropWhile_sublist _).length_le
    obtain ⟨rounds, rfl⟩ := Nat.exists_eq_add_one_of_ne_zero (Nat.ne_zero_of_lt hle)
    rw [List.length_cons] at hle
    simp only [Cursor.peek_of_rest hrs, if_neg hr, if_pos hc, ends_bind, ends_quotes hd hrs hq]
    rw [run_of_rest hrs hq] at hskip ⊢
    cases block with
    | false => exact absurd hlt (by simp [delimiter])
    | true =>
      rw [if_neg (by decide), if_neg hshort, stringBodyWithin, ends_bind, ends_next (hd.skip _)]
      refine ih (hd.skip _) ?_ (hskip.cancel hx) (by omega)
      rw [Cursor.rest_skip, hrs, Rune.afterRun, List.dropWhile_cons, if_pos hq]
      rfl
  | case5 r rest hr hq =>
    rename_i run hge
    have hskip := Cursor.Crosses.skip isQuote d
    have hc : r.char = '"' := by simpa [isQuote] using hq
    simp only [Cursor.peek_of_rest hrs, if_neg hr, if_pos hc, ends_bind, ends_quotes hd hrs hq]
    rw [run_of_rest hrs hq] at hskip ⊢
    have hsame := hskip.unique hx
    cases block with
    | false =>
      rw [if_pos rfl, ends_pure, hsame.spanning, hsame.width]
      rfl
    | true =>
      have hlong : 3 ≤ (r :: Rune.run isQuote rest).length := Nat.le_of_not_lt hge
      rw [if_neg (by decide), if_pos hlong, ends_pure, hsame.spanning, hsame.width]
      rfl
  | case6 r rest hr hq ih =>
    obtain ⟨rounds, rfl⟩ := Nat.exists_eq_add_one_of_ne_zero (Nat.ne_zero_of_lt hle)
    simp only [Cursor.peek_of_rest hrs, hr, ↓reduceIte]
    rw [if_neg (by simpa [isQuote] using hq), stringBodyWithin, ends_bind, ends_next hd.next]
    exact ih hd.next (by rw [Cursor.rest_next, hrs]; rfl) ((Cursor.next_crosses hrs).cancel hx)
      (Nat.le_of_succ_le_succ hle)

theorem ends_stringBody (hd : d.Sits input) {block : Bool}
    (hx : d.Crosses (body (delimiter block) d.rest).taken e) {Q : Bool → Head → Prop} :
    Ends input expected (stringBody block) (.spanning found c d w) Q ↔
      Q (body (delimiter block) d.rest).value (.spanning found c e e.width) := by
  have hlt := hd.length_rest_lt
  obtain ⟨rounds, hrounds⟩ := Nat.exists_eq_add_one_of_ne_zero (Nat.ne_zero_of_lt hlt)
  rw [stringBody, ends_bind, ends_read, hrounds]
  exact ends_stringBodyWithin hd (by omega) hx

theorem ends_string (hd : d.Sits input) (hx : d.Crosses (StringLiteral.read d.rest).taken e)
    {Q : Bool → Head → Prop} :
    Ends input expected string (.spanning found c d w) Q ↔
      Q (StringLiteral.read d.rest).value (.spanning found c e e.width) := by
  have hskip := Cursor.Crosses.skip isQuote d
  have hoffset := hskip.offset
  rw [span_run_quotes] at hoffset
  simp only [string, ends_bind, ends_get, ends_acceptRun hd, Head.pos_spanning, hoffset]
  rw [ends_minus (Nat.le_add_right ..), Nat.add_sub_cancel_left]
  have hbody (block : Bool) (hn : (Rune.run isQuote d.rest).length = delimiter block) :
      Ends input expected (stringBody block)
          (.spanning found c (d.skip isQuote) (d.skip isQuote).width) Q ↔
        Q (StringLiteral.read d.rest).value (.spanning found c e e.width) := by
    have hr : StringLiteral.read d.rest = (body (delimiter block) (d.skip isQuote).rest).after
        (Rune.run isQuote d.rest) := by
      simp only [StringLiteral.read, hn]
      rw [if_pos (by cases block <;> simp [delimiter])]
      rfl
    rw [hr] at hx ⊢
    exact ends_stringBody (hd.skip isQuote) (hskip.cancel hx)
  split
  · rename_i hn
    exact hbody false hn
  · rename_i hn
    exact hbody true hn
  · rename_i h1 h3
    have hr : StringLiteral.read d.rest =
        ⟨false, Rune.run isQuote d.rest, Rune.afterRun isQuote d.rest⟩ := by
      simp only [StringLiteral.read]
      rw [if_neg (not_or.mpr ⟨h1, h3⟩)]
    rw [hr] at hx ⊢
    rw [ends_pure, ← (hskip.unique hx).spanning, ← (hskip.unique hx).width]

end Scanner

/-! ## Numbers -/

namespace NumberLiteral

variable {d : Cursor}

theorem optional_of_any {p : Char → Bool} (h : d.peek.any p = true) :
    ∃ r, optional p d.rest = ([r], d.next.rest) ∧ d.Crosses [r] d.next := by
  cases hrs : d.rest with
  | nil => simp [Cursor.peek, hrs] at h
  | cons r rest =>
    have hr : p r.char = true := by simpa [Cursor.peek, hrs] using h
    exact ⟨r, by simp [optional, hr, hrs], Cursor.next_crosses hrs⟩

theorem optional_of_not {p : Char → Bool} (h : d.peek.any p = false) :
    optional p d.rest = ([], d.rest) := by
  cases hrs : d.rest with
  | nil => rfl
  | cons r rest =>
    have hr : p r.char = false := by simpa [Cursor.peek, hrs] using h
    simp [optional, hr]

end NumberLiteral

namespace Scanner

variable {input : Input} {expected found : List Item} {c d e : Cursor} {w : Nat}

theorem ends_fraction (hd : d.Sits input) (hx : d.Crosses (NumberLiteral.fraction d.rest).1 e)
    {Q : Bool → Head → Prop} :
    Ends input expected fraction (.spanning found c d w) Q ↔
      Q (decide ((NumberLiteral.fraction d.rest).1 ≠ [])) (.spanning found c e e.width) := by
  rw [fraction, ends_ifAccept hd]
  split
  · rename_i hp
    obtain ⟨r, ho, hr⟩ := NumberLiteral.optional_of_any hp
    simp only [NumberLiteral.fraction, ho] at hx ⊢
    have hs := (hr.trans (.skip Char.isDigit d.next)).unique hx
    simp only [ends_bind, ends_acceptRun hd.next, ends_pure]
    rw [hs.spanning, hs.width]
    simp
  · rename_i hp
    rw [Bool.not_eq_true] at hp
    simp only [NumberLiteral.fraction, NumberLiteral.optional_of_not hp] at hx ⊢
    rw [ends_pure, hx.spanning, hx.width]
    simp

theorem ends_exponent (hd : d.Sits input) (hx : d.Crosses (NumberLiteral.exponent d.rest).1 e)
    {Q : Bool → Head → Prop} :
    Ends input expected exponent (.spanning found c d w) Q ↔
      Q (decide ((NumberLiteral.exponent d.rest).1 ≠ [])) (.spanning found c e e.width) := by
  rw [exponent, ends_ifAccept hd]
  split
  · rename_i hp
    obtain ⟨r, ho, hr⟩ := NumberLiteral.optional_of_any hp
    simp only [NumberLiteral.exponent, ho] at hx ⊢
    rw [ends_bind, ends_accept hd.next]
    split
    · rename_i hp'
      obtain ⟨r', ho', hr'⟩ := NumberLiteral.optional_of_any hp'
      simp only [ho'] at hx ⊢
      have hs := ((hr.trans hr').trans (.skip Char.isDigit d.next.next)).unique hx
      simp only [ends_bind, ends_acceptRun hd.next.next, ends_pure]
      rw [hs.spanning, hs.width]
      simp
    · rename_i hp'
      rw [Bool.not_eq_true] at hp'
      simp only [NumberLiteral.optional_of_not hp', List.append_nil] at hx ⊢
      have hs := (hr.trans (.skip Char.isDigit d.next)).unique hx
      simp only [ends_bind, ends_acceptRun hd.next, ends_pure]
      rw [hs.spanning, hs.width]
      simp
  · rename_i hp
    rw [Bool.not_eq_true] at hp
    simp only [NumberLiteral.exponent, NumberLiteral.optional_of_not hp] at hx ⊢
    rw [ends_pure, hx.spanning, hx.width]
    simp

/-- Whether or not a rune is accepted, the head is then behind the optional rune. -/
theorem ends_accept_optional (hd : d.Sits input) (p : Char → Bool) :
    ∃ e, d.Crosses (NumberLiteral.optional p d.rest).1 e ∧ e.rest = (NumberLiteral.optional p d.rest).2 ∧
      ∀ {expected found c w} {Q : Bool → Head → Prop},
        Ends input expected (accept p) (.spanning found c d w) Q ↔
          Q (d.peek.any p) (.spanning found c e d.width) := by
  cases hp : d.peek.any p with
  | true =>
    obtain ⟨r, ho, hr⟩ := NumberLiteral.optional_of_any hp
    refine ⟨d.next, by rwa [ho], by rw [ho], ?_⟩
    intro expected found c w Q
    rw [ends_accept hd, if_pos hp]
  | false =>
    refine ⟨d, ?_, by rw [NumberLiteral.optional_of_not hp], ?_⟩
    · rw [NumberLiteral.optional_of_not hp]
      exact .refl d
    · intro expected found c w Q
      rw [ends_accept hd, hp, if_neg Bool.false_ne_true]

theorem ends_number (hc : c.Sits input) (hx : c.Crosses (NumberLiteral.read c.rest).taken e)
    {Q : Kind → Head → Prop}
    (hfail : (NumberLiteral.read c.rest).value = none → found ++ [⟨.error, input.doc.base + c.offset,
      (Fault.malformedNumber (Rune.text (NumberLiteral.read c.rest).taken)).message, e.line⟩] = expected)
    (hdone : ∀ kind, (NumberLiteral.read c.rest).value = some kind →
      Q kind (.spanning found c e e.width)) :
    Ends input expected number (.at found c w) Q := by
  obtain ⟨d, hd, hrest, haccept⟩ := ends_accept_optional hc (· = '-')
  have hds := hc.crosses hd
  have hdigits := Cursor.Crosses.skip Char.isDigit d
  rw [number, ends_bind, haccept]
  simp only [ends_bind, ends_get, ends_acceptRun hds]
  simp only [NumberLiteral.read, ← hrest] at hx hfail hdone
  split
  · rename_i hpos
    have hnil := Cursor.offset_skip_eq_iff.mp hpos
    rw [if_pos hnil] at hx hfail
    rw [hnil] at hdigits
    have hend := hd.trans hdigits
    rw [List.append_nil] at hend
    refine ends_failQuoting hc hend ?_
    have hl := (hend.unique hx).line
    rw [Rune.lineFeeds_nil, Nat.add_zero] at hl
    rw [← hl]
    exact hfail rfl
  · rename_i hpos
    have hnil := mt Cursor.offset_skip_eq_iff.mpr hpos
    rw [if_neg hnil] at hx hdone
    have hs := hds.skip Char.isDigit
    obtain ⟨f, hf⟩ : ∃ f, (d.skip Char.isDigit).Crosses
        (NumberLiteral.fraction (d.skip Char.isDigit).rest).1 f :=
      ⟨_, .advance (NumberLiteral.fraction_append _)⟩
    have hfrest : f.rest = (NumberLiteral.fraction (d.skip Char.isDigit).rest).2 :=
      List.append_cancel_left (hf.rest.symm.trans (NumberLiteral.fraction_append _).symm)
    rw [Cursor.rest_skip] at hfrest
    have he := ((hd.trans hdigits).trans hf).cancel hx
    rw [← hfrest] at he
    simp only [ends_bind, ends_fraction hs hf, ends_exponent (hs.crosses hf) he, ends_pure]
    refine hdone _ ?_
    rw [Cursor.rest_skip, hfrest]
    simp only [Bool.or_eq_true, decide_eq_true_eq, Option.some.injEq]
    split <;> split <;> simp_all

end Scanner

end SchemaScan
