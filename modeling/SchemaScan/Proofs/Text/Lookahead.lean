import SchemaScan.Proofs.Text.Continuations
import SchemaScan.Proofs.Text.Lossy

/-! # Common beginnings of texts

A recogniser looks at one rune behind what it takes and no further, and to read a rune takes four bytes at
most. So two sources with the same first bytes are read alike, except close to where they may differ.
-/
namespace SchemaScan

/-! ## Runes -/

/-- Whether a character begins a text, and which, depends on four bytes at most. -/
theorem Utf8.exists_decodeFirst?_of_take {bytes others rest : List UInt8} {c : Char}
    (h : bytes.take 4 = others.take 4) (hd : decodeFirst? bytes = some (c, rest)) :
    ∃ rest', others = String.utf8EncodeChar c ++ rest' := by
  have hlen : (String.utf8EncodeChar c).length ≤ 4 := by
    rw [String.length_utf8EncodeChar]
    exact c.utf8Size_le_four
  have htake : String.utf8EncodeChar c <+: others.take 4 := by
    rw [← h, eq_encode_of_decodeFirst? hd, List.take_append, List.take_of_length_le hlen]
    exact List.prefix_append ..
  obtain ⟨rest', hrest⟩ := htake.trans (List.take_prefix 4 others)
  exact ⟨rest', hrest.symm⟩

namespace Rune

/-- Two sources with the same first four bytes begin with the same rune. -/
theorem exists_read_cons {source other : List UInt8} {n : Nat} (hn : n ≤ source.length) (hfour : 4 ≤ n)
    (h : source.take n = other.take n) :
    ∃ r rest rest', read source = r :: read rest ∧ read other = r :: read rest' ∧ r.width ≤ n ∧
      n - r.width ≤ rest.length ∧ rest.take (n - r.width) = rest'.take (n - r.width) := by
  have hfirst : source.take 4 = other.take 4 := by
    have hboth := congrArg (List.take 4) h
    rwa [List.take_take, List.take_take, Nat.min_eq_left hfour] at hboth
  cases hd : Utf8.decodeFirst? source with
  | some first =>
    obtain ⟨c, rest⟩ := first
    obtain ⟨rest', rfl⟩ := Utf8.exists_decodeFirst?_of_take hfirst hd
    obtain rfl := Utf8.eq_encode_of_decodeFirst? hd
    have hwidth : (scalar c).width = (String.utf8EncodeChar c).length := rfl
    have hle : (scalar c).width ≤ 4 := by
      rw [hwidth, String.length_utf8EncodeChar]
      exact c.utf8Size_le_four
    rw [List.length_append, ← hwidth] at hn
    rw [List.take_append, List.take_append, ← hwidth] at h
    exact ⟨scalar c, rest, rest', read_encode_append c rest, read_encode_append c rest',
      Nat.le_trans hle hfour, by omega, List.append_cancel_left h⟩
  | none =>
    -- in the other source no character begins here either, since four bytes would show it
    have hd' : Utf8.decodeFirst? other = none := by
      refine Option.eq_none_iff_forall_ne_some.mpr ?_
      rintro ⟨c, left⟩ hsome
      obtain ⟨left', hleft⟩ := Utf8.exists_decodeFirst?_of_take hfirst.symm hsome
      rw [hleft, Utf8.decodeFirst?_encode_append] at hd
      cases hd
    obtain ⟨n, rfl⟩ := Nat.exists_eq_succ_of_ne_zero (by omega : n ≠ 0)
    cases source with
    | nil => cases hn
    | cons first rest =>
      cases other with
      | nil => cases h
      | cons first' rest' =>
        injection h with hbyte hrest
        subst hbyte
        exact ⟨stray first, rest, rest', read_of_none hd, read_of_none hd', Nat.le_add_left ..,
          Nat.le_of_succ_le_succ hn, hrest⟩

/-- Two sources begin with the same runes, up to less than four bytes in front of where they may differ. -/
theorem exists_common {source other : List UInt8} {n : Nat} (hn : n ≤ source.length)
    (h : source.take n = other.take n) :
    ∃ front a b, read source = front ++ a ∧ read other = front ++ b ∧ n < span front + 4 := by
  induction n using Nat.strong_induction_on generalizing source other with | _ n ih
  rcases Nat.lt_or_ge n 4 with hlt | hfour
  · exact ⟨[], _, _, rfl, rfl, by rwa [span_nil, Nat.zero_add]⟩
  · obtain ⟨r, rest, rest', hs, ho, hle, hlength, htake⟩ := exists_read_cons hn hfour h
    have hpos := r.width_pos
    obtain ⟨front, a, b, ha, hb, hlast⟩ := ih (n - r.width) (by omega) hlength htake
    refine ⟨r :: front, a, b, by rw [hs, ha, List.cons_append], by rw [ho, hb, List.cons_append], ?_⟩
    rw [span_cons]
    omega

variable {p : Char → Bool} {rs behind a : List Rune}

/-- A run ends in front of the next rune, whatever follows that rune. -/
theorem run_behind (hne : behind ≠ []) (h : afterRun p rs = behind ++ a) (b : List Rune) :
    run p (run p rs ++ (behind ++ b)) = run p rs ∧
      afterRun p (run p rs ++ (behind ++ b)) = behind ++ b := by
  obtain ⟨r, behind, rfl⟩ := List.exists_cons_of_ne_nil hne
  have hr : p r.char = false := by
    have hnot := List.head?_dropWhile_not (p ·.char) rs
    rw [show rs.dropWhile (p ·.char) = r :: behind ++ a from h] at hnot
    simpa using hnot
  have hall : ∀ x ∈ run p rs, p x.char = true := fun x hx => of_mem_run hx
  constructor
  · rw [run, List.takeWhile_append_of_pos hall]
    simp [hr]
  · rw [afterRun, List.dropWhile_append_of_pos hall]
    simp [hr]

end Rune

open Rune

namespace Reading

/-- What is read depends on what is taken and on the next rune, not on what follows that rune. -/
def IsLocal {α : Type} (read : List Rune → Reading α) : Prop :=
  ∀ {rs behind a : List Rune}, behind ≠ [] → (read rs).rest = behind ++ a →
    ∀ b, read ((read rs).taken ++ (behind ++ b)) = { read rs with rest := behind ++ b }

theorem eq_append_of_rest {α : Type} {r : Reading α} {rs behind a : List Rune}
    (hs : r.taken ++ r.rest = rs) (h : r.rest = behind ++ a) : rs = (r.taken ++ behind) ++ a := by
  rw [List.append_assoc, ← h, hs]

end Reading

theorem NameSegment.isLocal_read : Reading.IsLocal read := by
  intro rs behind a hne h b
  obtain ⟨hrun, hafter⟩ := run_behind hne h b
  have hrest : afterRun isNameContinue rs = behind ++ a := h
  obtain ⟨r, behind, rfl⟩ := List.exists_cons_of_ne_nil hne
  simp only [read, hrun, hafter, hrest]
  rfl

/-! ## Numbers -/

namespace NumberLiteral

variable {p : Char → Bool} {rs behind a : List Rune}

theorem optional_behind (hne : behind ≠ []) (h : (optional p rs).2 = behind ++ a) (b : List Rune) :
    optional p ((optional p rs).1 ++ (behind ++ b)) = ((optional p rs).1, behind ++ b) := by
  obtain ⟨r, behind, rfl⟩ := List.exists_cons_of_ne_nil hne
  cases rs with
  | nil => cases h
  | cons x rest =>
    by_cases hx : p x.char = true
    · simp [optional, hx]
    · have hr : x = r := by
        simp only [optional, hx] at h
        simpa using congrArg List.head? h
      simp [optional, hx, ← hr]

theorem fraction_behind (hne : behind ≠ []) (h : (fraction rs).2 = behind ++ a) (b : List Rune) :
    fraction ((fraction rs).1 ++ (behind ++ b)) = ((fraction rs).1, behind ++ b) := by
  have hpoint := @optional_behind (· = '.') rs
  unfold fraction at h ⊢
  cases ho : optional (· = '.') rs with
  | mk point rest =>
    rw [ho] at h hpoint
    cases point with
    | nil =>
      have hnone := hpoint hne h b
      simp only [List.nil_append] at hnone ⊢
      rw [hnone]
    | cons r point =>
      simp only at h ⊢
      have hrest : rest = (run Char.isDigit rest ++ behind) ++ a := by
        rw [List.append_assoc, ← h, run_append_afterRun]
      obtain ⟨hrun, hafter⟩ := run_behind hne h b
      have hsome := hpoint (List.append_ne_nil_of_right_ne_nil _ hne) hrest b
      rw [List.append_assoc] at hsome
      rw [List.append_assoc, hsome]
      simp only [hrun, hafter]

theorem exponent_behind (hne : behind ≠ []) (h : (exponent rs).2 = behind ++ a) (b : List Rune) :
    exponent ((exponent rs).1 ++ (behind ++ b)) = ((exponent rs).1, behind ++ b) := by
  have hletter := @optional_behind (fun c => c = 'e' || c = 'E') rs
  unfold exponent at h ⊢
  cases ho : optional (fun c => c = 'e' || c = 'E') rs with
  | mk letter rest =>
    rw [ho] at h hletter
    cases letter with
    | nil =>
      have hnone := hletter hne h b
      simp only [List.nil_append] at hnone ⊢
      rw [hnone]
    | cons r letter =>
      have hsign := @optional_behind (fun c => c = '+' || c = '-') rest
      have hsplit := optional_append (fun c => c = '+' || c = '-') rest
      cases hos : optional (fun c => c = '+' || c = '-') rest with
      | mk sign digits =>
        rw [hos] at hsign hsplit
        simp only [hos] at h ⊢
        have hdigits : digits = (run Char.isDigit digits ++ behind) ++ a := by
          rw [List.append_assoc, ← h, run_append_afterRun]
        have hrest : rest = (sign ++ (run Char.isDigit digits ++ behind)) ++ a := by
          rw [List.append_assoc, ← hdigits, hsplit]
        have hne' : run Char.isDigit digits ++ behind ≠ [] := List.append_ne_nil_of_right_ne_nil _ hne
        have hsome := hletter (List.append_ne_nil_of_right_ne_nil _ hne') hrest b
        have hsigned := hsign hne' hdigits b
        obtain ⟨hrun, hafter⟩ := run_behind hne h b
        simp only [List.append_assoc] at hsome hsigned ⊢
        simp only [hsome, hsigned, hrun, hafter]

theorem isLocal_read : Reading.IsLocal read := by
  intro rs behind a hne h b
  have hsign := @optional_behind (· = '-') rs
  cases hos : optional (· = '-') rs with
  | mk sign rest =>
    rw [hos] at hsign
    have hdigits := run_append_afterRun Char.isDigit rest
    simp only [read, hos] at h ⊢
    by_cases hnone : run Char.isDigit rest = []
    · rw [if_pos hnone] at h ⊢
      rw [hnone, List.nil_append] at hdigits
      have hrun := run_behind hne h b
      rw [hdigits] at h
      have hsome := hsign hne h b
      simp only [hnone, List.nil_append] at hrun
      simp only [hsome, hrun, if_pos]
    · rw [if_neg hnone] at h ⊢
      have hfraction := @fraction_behind (afterRun Char.isDigit rest)
      have hsplit := fraction_append (afterRun Char.isDigit rest)
      cases hof : fraction (afterRun Char.isDigit rest) with
      | mk fractional more =>
        rw [hof] at hfraction hsplit
        have hexponent := @exponent_behind more
        have hsplit' := exponent_append more
        cases hoe : exponent more with
        | mk exponential left =>
          rw [hoe] at hexponent hsplit'
          simp only [hof, hoe] at h ⊢ hsplit hsplit'
          have hmore : more = (exponential ++ behind) ++ a := by
            rw [List.append_assoc, ← h, hsplit']
          have hbehind : exponential ++ behind ≠ [] := List.append_ne_nil_of_right_ne_nil _ hne
          have hafter : afterRun Char.isDigit rest = (fractional ++ (exponential ++ behind)) ++ a := by
            rw [List.append_assoc, ← hmore, hsplit]
          have hbehind' : fractional ++ (exponential ++ behind) ≠ [] :=
            List.append_ne_nil_of_right_ne_nil _ hbehind
          have hrest : rest = (run Char.isDigit rest ++ (fractional ++ (exponential ++ behind))) ++ a := by
            rw [List.append_assoc, ← hafter, hdigits]
          have hsome := hsign (List.append_ne_nil_of_right_ne_nil _ hbehind') hrest b
          obtain ⟨hrun, hafter⟩ := run_behind hbehind' hafter b
          have hf := hfraction hbehind hmore b
          have he := hexponent hne h b
          simp only [List.append_assoc] at hsome hrun hafter hf he ⊢
          simp only [hsome, hrun, hafter, hf, he, hnone, if_false]

end NumberLiteral

namespace StringLiteral

variable {rs behind a : List Rune}

theorem body_behind (delimiter : Nat) (hne : behind ≠ []) (h : (body delimiter rs).rest = behind ++ a)
    (b : List Rune) : body delimiter ((body delimiter rs).taken ++ (behind ++ b)) =
      { body delimiter rs with rest := behind ++ b } := by
  fun_induction body delimiter rs with
  | case1 => exact absurd (List.append_eq_nil_iff.mp h.symm).1 hne
  | case2 => exact absurd (List.append_eq_nil_iff.mp h.symm).1 hne
  | case3 r hback escaped rest ih =>
    rw [Reading.after, List.append_assoc, List.cons_append, List.cons_append, List.nil_append, body,
      if_pos hback]
    simp only [ih h, Reading.after]
  | case4 r rest hback hquote quotes hlt ih =>
    have hafter := Reading.eq_append_of_rest
      (body_taken_append_rest delimiter (afterRun isQuote rest)) h
    obtain ⟨hrun, hbehind⟩ := run_behind (List.append_ne_nil_of_right_ne_nil _ hne) hafter b
    rw [List.append_assoc] at hrun hbehind
    rw [Reading.after, List.append_assoc, List.cons_append, body.eq_def]
    simp only [hback, ↓reduceIte, hquote, hrun, hbehind, ih h]
    rw [if_pos hlt]
    rfl
  | case5 r rest hback hquote quotes hlt =>
    obtain ⟨hrun, hbehind⟩ := run_behind hne h b
    rw [List.cons_append, body.eq_def]
    simp only [hback, ↓reduceIte, hquote, hrun, hbehind]
    rw [if_neg hlt]
  | case6 r rest hback hquote ih =>
    rw [Reading.after, List.append_assoc, List.cons_append, List.nil_append, body.eq_def]
    simp only [hback, ↓reduceIte, hquote, ih h, Reading.after]
    rfl

theorem isLocal_read : Reading.IsLocal read := by
  intro rs behind a hne h b
  simp only [read] at h ⊢
  split
  · rename_i hq
    rw [if_pos hq] at h
    have hafter := Reading.eq_append_of_rest
      (body_taken_append_rest (run isQuote rs).length (afterRun isQuote rs)) h
    obtain ⟨hrun, hbehind⟩ := run_behind (List.append_ne_nil_of_right_ne_nil _ hne) hafter b
    rw [List.append_assoc] at hrun hbehind
    simp only [Reading.after, List.append_assoc, hrun, hbehind, body_behind _ hne h b, if_pos hq]
  · rename_i hq
    rw [if_neg hq] at h
    obtain ⟨hrun, hbehind⟩ := run_behind hne h b
    simp only [hrun, hbehind, if_neg hq]

end StringLiteral

end SchemaScan
