import Mathlib.Data.List.TakeWhile
import SchemaScan.Proofs.Text.Runes
import SchemaScan.Scan.Literal

/-! # What follows a text

How far a stretch of runes goes may depend on what follows the text. It does not if the text ends with a
line feed and the stretch stays within its line; then literals and name segments are read as before.
-/
namespace SchemaScan

namespace Rune

/-- The runes end with a line feed, or nothing follows them. -/
def Sealed (rs tail : List Rune) : Prop := tail = [] ∨ rs.getLast?.map char = some '\n'

variable {rs tail : List Rune} {p : Char → Bool}

theorem sealed_nil (rs : List Rune) : Sealed rs [] := .inl rfl

namespace Sealed

theorem tail_eq_nil (h : Sealed [] tail) : tail = [] := h.resolve_right (by simp)

theorem suffix {more : List Rune} (h : Sealed rs tail) (hs : more <:+ rs)
    (hne : tail = [] ∨ more ≠ []) : Sealed more tail := by
  obtain ⟨front, rfl⟩ := hs
  rcases hne with ht | hne
  · exact .inl ht
  · rcases h with ht | hline
    · exact .inl ht
    · rw [List.getLast?_append, List.getLast?_eq_some_getLast hne, Option.some_or,
        ← List.getLast?_eq_some_getLast hne] at hline
      exact .inr hline

/-- A stretch within a line does not reach the end of the runes. -/
theorem afterRun_ne_nil (h : Sealed rs tail) (hp : p '\n' = false) :
    tail = [] ∨ Rune.afterRun p rs ≠ [] := by
  refine h.imp_right fun hline hnil => ?_
  obtain ⟨r, hr, hchar⟩ := Option.map_eq_some_iff.mp hline
  have hall := List.dropWhile_eq_nil_iff.mp hnil r (List.mem_of_getLast? hr)
  rw [hchar, hp] at hall
  cases hall

theorem afterRun (h : Sealed rs tail) (hne : tail = [] ∨ Rune.afterRun p rs ≠ []) :
    Sealed (Rune.afterRun p rs) tail := h.suffix (List.dropWhile_suffix _) hne

end Sealed

/-- Something follows the first rune unless it is the line feed. -/
theorem Sealed.rest_ne_nil {r : Rune} (h : Sealed (r :: rs) tail) (hr : p r.char = true)
    (hp : p '\n' = false) : tail = [] ∨ rs ≠ [] := by
  refine h.imp_right ?_
  rintro hline rfl
  have hchar : r.char = '\n' := by simpa using hline
  rw [hchar, hp] at hr
  cases hr

/-- A stretch that ends before the runes do ends there whatever follows them. -/
theorem run_append_of_ne (h : tail = [] ∨ afterRun p rs ≠ []) :
    run p (rs ++ tail) = run p rs ∧ afterRun p (rs ++ tail) = afterRun p rs ++ tail := by
  rcases h with rfl | h
  · simp
  · induction rs with
    | nil => exact absurd rfl h
    | cons r rs ih =>
      by_cases hr : p r.char = true
      · have hrest : afterRun p rs ≠ [] := by simpa [afterRun, hr] using h
        simpa [run, afterRun, hr] using ih hrest
      · simp [run, afterRun, hr]

theorem Sealed.run_append (h : Sealed rs tail) (hp : p '\n' = false) :
    run p (rs ++ tail) = run p rs ∧ Rune.afterRun p (rs ++ tail) = Rune.afterRun p rs ++ tail ∧
      Sealed (Rune.afterRun p rs) tail := by
  have hne := h.afterRun_ne_nil hp
  obtain ⟨hrun, hafter⟩ := run_append_of_ne hne
  exact ⟨hrun, hafter, h.afterRun hne⟩

/-- Sources are read apart where a line feed stands between them. -/
theorem read_append_of_lineFeed {source : List UInt8} (h : source.getLast? = some 0x0A)
    (more : List UInt8) :
    read (source ++ more) = read source ++ read more ∧ Sealed (read source) (read more) := by
  obtain ⟨front, rfl⟩ := List.getLast?_eq_some_iff.mp h
  have hencode : [0x0A] = String.utf8EncodeChar '\n' := by decide
  have hread (rest : List UInt8) :
      read (front ++ [0x0A] ++ rest) = read front ++ scalar '\n' :: read rest := by
    rw [List.append_assoc, hencode, read_append (Utf8.startsFresh_encode_append _ _),
      read_encode_append]
  have hsource := hread []
  rw [List.append_nil, read_nil] at hsource
  rw [hread, hsource]
  exact ⟨by rw [List.append_assoc, List.singleton_append], .inr (by rw [List.getLast?_concat]; rfl)⟩

end Rune

open Rune

namespace Reading

/-- A reading with more runes behind what is left. -/
def before {α : Type} (r : Reading α) (tail : List Rune) : Reading α :=
  { r with rest := r.rest ++ tail }

end Reading

variable {rs tail : List Rune}

theorem isNameContinue_lineFeed : isNameContinue '\n' = false := by decide

theorem NameSegment.read_of_sealed (h : Sealed rs tail) : read (rs ++ tail) = (read rs).before tail ∧
    Sealed (read rs).rest tail := by
  obtain ⟨hrun, hafter, hrest⟩ := h.run_append isNameContinue_lineFeed
  refine ⟨?_, hrest⟩
  have hends : endsBefore (afterRun isNameContinue rs ++ tail) =
      endsBefore (afterRun isNameContinue rs) := by
    cases hr : afterRun isNameContinue rs with
    | nil =>
      rw [hr] at hrest
      rw [hrest.tail_eq_nil, List.append_nil]
    | cons r rest => rfl
  simp only [read, hrun, hafter, hends, Reading.before]

/-! ## Numbers -/

namespace NumberLiteral

theorem optional_of_sealed {p : Char → Bool} (h : Sealed rs tail) (hp : p '\n' = false) :
    optional p (rs ++ tail) = ((optional p rs).1, (optional p rs).2 ++ tail) ∧
      Sealed (optional p rs).2 tail := by
  cases rs with
  | nil =>
    obtain rfl := h.tail_eq_nil
    exact ⟨rfl, h⟩
  | cons r rest =>
    simp only [List.cons_append, optional]
    split
    · rename_i hr
      exact ⟨rfl, h.suffix (List.suffix_cons r rest) (h.rest_ne_nil hr hp)⟩
    · exact ⟨rfl, h⟩

theorem fraction_of_sealed (h : Sealed rs tail) :
    fraction (rs ++ tail) = ((fraction rs).1, (fraction rs).2 ++ tail) ∧ Sealed (fraction rs).2 tail := by
  obtain ⟨hpoint, hrest⟩ := @optional_of_sealed rs tail (· = '.') h rfl
  unfold fraction
  cases ho : optional (· = '.') rs with
  | mk point rest =>
    rw [ho] at hpoint hrest
    rw [hpoint]
    cases point with
    | nil => exact ⟨rfl, hrest⟩
    | cons r point =>
      obtain ⟨hrun, hafter, hdigits⟩ := @Sealed.run_append _ _ Char.isDigit hrest rfl
      simp only [hrun, hafter]
      exact ⟨trivial, hdigits⟩

theorem exponent_of_sealed (h : Sealed rs tail) :
    exponent (rs ++ tail) = ((exponent rs).1, (exponent rs).2 ++ tail) ∧ Sealed (exponent rs).2 tail := by
  obtain ⟨hletter, hrest⟩ := @optional_of_sealed rs tail (fun c => c = 'e' || c = 'E') h rfl
  unfold exponent
  cases ho : optional (fun c => c = 'e' || c = 'E') rs with
  | mk letter rest =>
    rw [ho] at hletter hrest
    rw [hletter]
    cases letter with
    | nil => exact ⟨rfl, hrest⟩
    | cons r letter =>
      obtain ⟨hsign, hrest'⟩ := @optional_of_sealed _ _ (fun c => c = '+' || c = '-') hrest rfl
      obtain ⟨hrun, hafter, hdigits⟩ := @Sealed.run_append _ _ Char.isDigit hrest' rfl
      simp only [hsign, hrun, hafter]
      exact ⟨trivial, hdigits⟩

theorem read_of_sealed (h : Sealed rs tail) : read (rs ++ tail) = (read rs).before tail ∧
    Sealed (read rs).rest tail := by
  obtain ⟨hsign, hrest⟩ := @optional_of_sealed rs tail (· = '-') h rfl
  obtain ⟨hrun, hafter, hdigits⟩ := @Sealed.run_append _ _ Char.isDigit hrest rfl
  obtain ⟨hfraction, hbehind⟩ := fraction_of_sealed hdigits
  obtain ⟨hexponent, hend⟩ := exponent_of_sealed hbehind
  simp only [read, hsign, hrun, hafter, hfraction, hexponent]
  split
  · exact ⟨rfl, hdigits⟩
  · exact ⟨rfl, hend⟩

end NumberLiteral

/-! ## Strings -/

namespace StringLiteral

theorem isQuote_lineFeed : isQuote '\n' = false := rfl

theorem ne_nil_of_body {delimiter : Nat} (hv : (body delimiter rs).value = true) : rs ≠ [] := by
  rintro rfl
  rw [body] at hv
  cases hv

theorem body_of_sealed {delimiter : Nat} (h : Sealed rs tail) (hv : (body delimiter rs).value = true) :
    body delimiter (rs ++ tail) = (body delimiter rs).before tail ∧
      Sealed (body delimiter rs).rest tail := by
  fun_induction body delimiter rs with
  | case1 => cases hv
  | case2 => cases hv
  | case3 r hback escaped rest ih =>
    have hrest : Sealed rest tail :=
      h.suffix ((List.suffix_cons _ _).trans (List.suffix_cons _ _)) (.inr (ne_nil_of_body hv))
    obtain ⟨hbody, hend⟩ := ih hrest hv
    refine ⟨?_, hend⟩
    rw [List.cons_append, List.cons_append, body]
    simp [hback, hbody, Reading.after, Reading.before]
  | case4 r rest hback hquote quotes hlt ih =>
    have hrest := h.suffix (List.suffix_cons r rest) (h.rest_ne_nil hquote isQuote_lineFeed)
    obtain ⟨hrun, hafter, hbehind⟩ := hrest.run_append isQuote_lineFeed
    obtain ⟨hbody, hend⟩ := ih hbehind hv
    refine ⟨?_, hend⟩
    rw [List.cons_append, body.eq_def]
    simp only [hback, ↓reduceIte, hquote, hrun, hafter, hbody]
    rw [if_pos hlt]
    rfl
  | case5 r rest hback hquote quotes hlt =>
    have hrest := h.suffix (List.suffix_cons r rest) (h.rest_ne_nil hquote isQuote_lineFeed)
    obtain ⟨hrun, hafter, hbehind⟩ := hrest.run_append isQuote_lineFeed
    refine ⟨?_, hbehind⟩
    rw [List.cons_append, body.eq_def]
    simp only [hback, ↓reduceIte, hquote, hrun, hafter]
    rw [if_neg hlt]
    rfl
  | case6 r rest hback hquote ih =>
    have hrest := h.suffix (List.suffix_cons r rest) (.inr (ne_nil_of_body hv))
    obtain ⟨hbody, hend⟩ := ih hrest hv
    refine ⟨?_, hend⟩
    rw [List.cons_append, body.eq_def]
    simp [hback, hquote, hbody, Reading.after, Reading.before]

/-- A string that is closed is read as before. -/
theorem read_of_sealed (h : Sealed rs tail) (hv : (read rs).value = true) :
    read (rs ++ tail) = (read rs).before tail ∧ Sealed (read rs).rest tail := by
  obtain ⟨hrun, hafter, hrest⟩ := h.run_append isQuote_lineFeed
  simp only [read, hrun, hafter] at hv ⊢
  split at hv
  · rename_i hq
    obtain ⟨hbody, hend⟩ := body_of_sealed hrest hv
    rw [if_pos hq, if_pos hq, hbody]
    exact ⟨rfl, hend⟩
  · cases hv

end StringLiteral

end SchemaScan
