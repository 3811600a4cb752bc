import SchemaScan.Proofs.Text.Runes
import SchemaScan.Scan.Literal

/-! # Line endings

A carriage return in front of every line feed of a source is a carriage return in front of every line
feed among its runes. A literal or a name segment that has no line feed in it is read as before.
-/
namespace SchemaScan

namespace Utf8

/-- The source with a carriage return in front of every line feed. -/
def withReturns (source : List UInt8) : List UInt8 :=
  source.flatMap fun b => if b = 0x0A then [0x0D, 0x0A] else [b]

theorem withReturns_append (a b : List UInt8) :
    withReturns (a ++ b) = withReturns a ++ withReturns b := List.flatMap_append

theorem withReturns_of_notMem {source : List UInt8} (h : 0x0A ∉ source) :
    withReturns source = source := by
  induction source with
  | nil => rfl
  | cons b source ih =>
    rw [List.mem_cons, not_or] at h
    obtain ⟨hb, hsource⟩ := h
    have ih := ih hsource
    rw [withReturns] at ih ⊢
    rw [List.flatMap_cons, ih, if_neg (Ne.symm hb)]
    rfl

/-- Bytes beyond ASCII stand as they stood before. -/
theorem exists_of_withReturns_eq {source taken rest : List UInt8}
    (h : withReturns source = taken ++ rest) (hhigh : ∀ b ∈ taken, 0x80 ≤ b.toNat) :
    ∃ tail, source = taken ++ tail := by
  induction taken generalizing source with
  | nil => exact ⟨source, rfl⟩
  | cons b taken ih =>
    obtain ⟨hb, htaken⟩ := List.forall_mem_cons.mp hhigh
    cases source with
    | nil => cases h
    | cons x source =>
      rw [withReturns, List.flatMap_cons] at h
      split at h
      · injection h with hx
        rw [← hx] at hb
        exact absurd hb (by decide)
      · injection h with hx h
        obtain ⟨tail, rfl⟩ := ih h htaken
        exact ⟨tail, by rw [hx]; rfl⟩

end Utf8

namespace Rune

/-- The runes with a carriage return in front of every line feed. -/
def withReturns (rs : List Rune) : List Rune :=
  rs.flatMap fun r => if r.char = '\n' then [scalar '\r', r] else [r]

@[simp] theorem withReturns_nil : withReturns [] = [] := rfl

theorem withReturns_cons_of_ne {r : Rune} (rs : List Rune) (h : r.char ≠ '\n') :
    withReturns (r :: rs) = r :: withReturns rs := by
  rw [withReturns, List.flatMap_cons, if_neg h]
  rfl

theorem withReturns_cons_of_eq {r : Rune} (rs : List Rune) (h : r.char = '\n') :
    withReturns (r :: rs) = scalar '\r' :: r :: withReturns rs := by
  rw [withReturns, List.flatMap_cons, if_pos h]
  rfl

theorem withReturns_of_forall {rs : List Rune} (h : ∀ r ∈ rs, r.char ≠ '\n') :
    withReturns rs = rs := by
  induction rs with
  | nil => rfl
  | cons r rs ih =>
    obtain ⟨hr, hrs⟩ := List.forall_mem_cons.mp h
    rw [withReturns_cons_of_ne rs hr, ih hrs]

theorem lineFeeds_withReturns (rs : List Rune) : lineFeeds (withReturns rs) = lineFeeds rs := by
  induction rs with
  | nil => rfl
  | cons r rs ih =>
    unfold lineFeeds at ih ⊢
    by_cases hr : r.char = '\n'
    · rw [withReturns_cons_of_eq rs hr, List.countP_cons_of_neg (by decide), List.countP_cons,
        List.countP_cons, ih]
    · rw [withReturns_cons_of_ne rs hr, List.countP_cons, List.countP_cons, ih]

theorem head?_withReturns (rs : List Rune) : (withReturns rs).head?.map char =
    (rs.head?.map char).map fun x => if x = '\n' then '\r' else x := by
  cases rs with
  | nil => rfl
  | cons r rs =>
    by_cases hr : r.char = '\n'
    · rw [withReturns_cons_of_eq rs hr, List.head?_cons, List.head?_cons, Option.map_some,
        Option.map_some, Option.map_some, if_pos hr]
      rfl
    · rw [withReturns_cons_of_ne rs hr]
      simp [hr]

/-- The runes of the source with its returns. -/
theorem read_withReturns (source : List UInt8) :
    read (Utf8.withReturns source) = withReturns (read source) := by
  fun_induction read source with
  | case1 source c rest hd ih =>
    rw [Utf8.eq_encode_of_decodeFirst? hd, Utf8.withReturns_append]
    by_cases hc : c = '\n'
    · subst hc
      rw [withReturns_cons_of_eq (r := scalar '\n') _ rfl, ← ih]
      exact (read_encode_append '\r' _).trans (congrArg _ (read_encode_append '\n' _))
    · have hmem : 0x0A ∉ String.utf8EncodeChar c := by
        rw [← List.count_eq_zero, count_lineFeed_encode, if_neg hc]
      rw [Utf8.withReturns_of_notMem hmem, read_encode_append, ih,
        withReturns_cons_of_ne (r := scalar c) _ hc]
  | case2 => exact read_nil
  | case3 b rest hd ih =>
    have hhigh : 0x80 ≤ b.toNat := by
      rcases Nat.lt_or_ge b.toNat 0x80 with hb | hb
      · rw [Utf8.decodeFirst?_ascii hb] at hd
        cases hd
      · exact hb
    have hb : b ≠ 0x0A := by
      rintro rfl
      exact absurd hhigh (by decide)
    have hbytes : Utf8.withReturns (b :: rest) = b :: Utf8.withReturns rest := by
      rw [Utf8.withReturns, List.flatMap_cons, if_neg hb]
      rfl
    -- a character that begins here with returns begins here without them
    have hnone : Utf8.decodeFirst? (b :: Utf8.withReturns rest) = none := by
      refine Option.eq_none_iff_forall_ne_some.mpr fun found hc => ?_
      obtain ⟨c, tail⟩ := found
      have hbytes := Utf8.eq_encode_of_decodeFirst? hc
      obtain ⟨more, hmore⟩ : ∃ more, String.utf8EncodeChar c = b :: more := by
        cases hencode : String.utf8EncodeChar c with
        | nil =>
          have := c.utf8Size_pos
          rw [← String.length_utf8EncodeChar, hencode] at this
          exact absurd this (Nat.lt_irrefl 0)
        | cons x more =>
          rw [hencode, List.cons_append] at hbytes
          injection hbytes with hx
          exact ⟨more, by rw [hx]⟩
      have hc80 : 0x80 ≤ c.val.toNat := by
        refine Nat.le_of_not_lt fun hlow => ?_
        rw [Utf8.encode_of_ascii hlow] at hmore
        injection hmore with hx
        rw [← hx, Utf8.toNat_ofNat_byte (by omega)] at hhigh
        omega
      rw [hmore, List.cons_append] at hbytes
      injection hbytes with _ hbytes
      obtain ⟨tail', rfl⟩ := Utf8.exists_of_withReturns_eq hbytes fun x hx =>
        Utf8.high_of_mem_encode hc80 (hmore ▸ List.mem_cons_of_mem b hx)
      rw [← List.cons_append, ← hmore, Utf8.decodeFirst?_encode_append] at hd
      cases hd
    rw [hbytes, read]
    split
    · rename_i hc
      rw [hnone] at hc
      cases hc
    · rw [withReturns_cons_of_ne (r := stray b) _ (by simp [char])]
      simp only [ih]

/-- A stretch that treats both ends of a line alike is the same stretch, with its returns. -/
theorem run_withReturns {p : Char → Bool} (hp : p '\r' = p '\n') (rs : List Rune) :
    run p (withReturns rs) = withReturns (run p rs) ∧
      afterRun p (withReturns rs) = withReturns (afterRun p rs) := by
  have htaken (r : Rune) (rs : List Rune) (hr : p r.char = true) :
      run p (r :: rs) = r :: run p rs ∧ afterRun p (r :: rs) = afterRun p rs :=
    ⟨List.takeWhile_cons_of_pos hr, List.dropWhile_cons_of_pos hr⟩
  have hleft (r : Rune) (rs : List Rune) (hr : ¬p r.char = true) :
      run p (r :: rs) = [] ∧ afterRun p (r :: rs) = r :: rs :=
    ⟨List.takeWhile_cons_of_neg hr, List.dropWhile_cons_of_neg hr⟩
  induction rs with
  | nil => exact ⟨rfl, rfl⟩
  | cons r rs ih =>
    obtain ⟨ihrun, ihafter⟩ := ih
    by_cases hline : r.char = '\n'
    · have hreturn : p (scalar '\r').char = p r.char := by rw [hline]; exact hp
      rw [withReturns_cons_of_eq rs hline]
      by_cases hr : p r.char = true
      · rw [(htaken r rs hr).1, (htaken r rs hr).2, withReturns_cons_of_eq _ hline,
          (htaken _ _ (hreturn.trans hr)).1, (htaken _ _ (hreturn.trans hr)).2,
          (htaken r _ hr).1, (htaken r _ hr).2, ihrun, ihafter]
        exact ⟨rfl, rfl⟩
      · rw [(hleft r rs hr).1, (hleft r rs hr).2, withReturns_cons_of_eq _ hline,
          (hleft _ _ (hreturn ▸ hr)).1, (hleft _ _ (hreturn ▸ hr)).2]
        exact ⟨rfl, rfl⟩
    · rw [withReturns_cons_of_ne rs hline]
      by_cases hr : p r.char = true
      · rw [(htaken r rs hr).1, (htaken r rs hr).2, withReturns_cons_of_ne _ hline,
          (htaken r _ hr).1, (htaken r _ hr).2, ihrun, ihafter]
        exact ⟨rfl, rfl⟩
      · rw [(hleft r rs hr).1, (hleft r rs hr).2, withReturns_cons_of_ne _ hline,
          (hleft r _ hr).1, (hleft r _ hr).2]
        exact ⟨rfl, rfl⟩

/-- A stretch that goes over no end of a line is the same stretch. -/
theorem run_withReturns_of_not {p : Char → Bool} (hr : p '\r' = false) (hn : p '\n' = false)
    (rs : List Rune) : run p (withReturns rs) = run p rs ∧
      afterRun p (withReturns rs) = withReturns (afterRun p rs) := by
  obtain ⟨hrun, hafter⟩ := run_withReturns (hr.trans hn.symm) rs
  refine ⟨hrun.trans (withReturns_of_forall fun r hmem hline => ?_), hafter⟩
  have hp : p r.char = true := of_mem_run hmem
  rw [hline, hn] at hp
  cases hp

end Rune

/-! ## Literals and name segments -/

/-- The same reading of the runes with their returns. -/
def Reading.withReturns {α : Type} (reading : Reading α) : Reading α :=
  { reading with rest := Rune.withReturns reading.rest }

theorem NameSegment.read_withReturns (rs : List Rune) :
    read (Rune.withReturns rs) = (read rs).withReturns := by
  have hends (rs : List Rune) : endsBefore (Rune.withReturns rs) = endsBefore rs := by
    cases rs with
    | nil => rfl
    | cons r rs =>
      by_cases hr : r.char = '\n'
      · rw [Rune.withReturns_cons_of_eq rs hr, endsBefore, endsBefore, hr]
        rfl
      · rw [Rune.withReturns_cons_of_ne rs hr]
        rfl
  obtain ⟨hrun, hafter⟩ := @Rune.run_withReturns_of_not isNameContinue rfl rfl rs
  simp only [read, hrun, hafter, hends, Reading.withReturns]

namespace NumberLiteral

theorem optional_withReturns {p : Char → Bool} (hr : p '\r' = false) (hn : p '\n' = false)
    (rs : List Rune) : optional p (Rune.withReturns rs) =
      ((optional p rs).1, Rune.withReturns (optional p rs).2) := by
  cases rs with
  | nil => rfl
  | cons r rs =>
    by_cases hline : r.char = '\n'
    · have hp : p (Rune.scalar '\r').char = false := hr
      rw [Rune.withReturns_cons_of_eq rs hline]
      simp [optional, hp, hline, hn, Rune.withReturns_cons_of_eq rs hline]
    · rw [Rune.withReturns_cons_of_ne rs hline]
      cases hp : p r.char with
      | true => simp [optional, hp]
      | false => simp [optional, hp, Rune.withReturns_cons_of_ne rs hline]

theorem fraction_withReturns (rs : List Rune) : fraction (Rune.withReturns rs) =
    ((fraction rs).1, Rune.withReturns (fraction rs).2) := by
  have hpoint := @optional_withReturns (· = '.') rfl rfl rs
  unfold fraction
  cases h : optional (· = '.') rs with
  | mk point rest =>
    rw [hpoint, h]
    cases point with
    | nil => rfl
    | cons r point =>
      obtain ⟨hrun, hafter⟩ := @Rune.run_withReturns_of_not Char.isDigit rfl rfl rest
      simp only [hrun, hafter]

theorem exponent_withReturns (rs : List Rune) : exponent (Rune.withReturns rs) =
    ((exponent rs).1, Rune.withReturns (exponent rs).2) := by
  have hletter := @optional_withReturns (fun c => c = 'e' || c = 'E') rfl rfl rs
  unfold exponent
  cases h : optional (fun c => c = 'e' || c = 'E') rs with
  | mk letter rest =>
    rw [hletter, h]
    cases letter with
    | nil => rfl
    | cons r letter =>
      have hsign := @optional_withReturns (fun c => c = '+' || c = '-') rfl rfl rest
      obtain ⟨hrun, hafter⟩ := @Rune.run_withReturns_of_not Char.isDigit rfl rfl
        (optional (fun c => c = '+' || c = '-') rest).2
      simp only [hsign, hrun, hafter]

theorem read_withReturns (rs : List Rune) :
    read (Rune.withReturns rs) = (read rs).withReturns := by
  have hsign := @optional_withReturns (· = '-') rfl rfl rs
  obtain ⟨hrun, hafter⟩ :=
    @Rune.run_withReturns_of_not Char.isDigit rfl rfl (optional (· = '-') rs).2
  simp only [read, hsign, hrun, hafter, fraction_withReturns, exponent_withReturns]
  split
  · rfl
  · rfl

end NumberLiteral

namespace StringLiteral

theorem body_withReturns {delimiter : Nat} {rs : List Rune}
    (h : ∀ r ∈ (body delimiter rs).taken, r.char ≠ '\n') :
    body delimiter (Rune.withReturns rs) = (body delimiter rs).withReturns := by
  fun_induction body delimiter rs with
  | case1 =>
    rw [Rune.withReturns_nil, body]
    rfl
  | case2 r hback =>
    rw [Rune.withReturns_cons_of_ne [] (h r List.mem_cons_self), Rune.withReturns_nil, body]
    simp [hback, Reading.withReturns]
  | case3 r hback escaped rest ih =>
    simp only [Reading.after, List.forall_mem_append, List.forall_mem_cons] at h
    obtain ⟨⟨hr, hescaped, -⟩, hrest⟩ := h
    rw [Rune.withReturns_cons_of_ne _ hr, Rune.withReturns_cons_of_ne _ hescaped, body]
    simp [hback, ih hrest, Reading.after, Reading.withReturns]
  | case4 r rest hback hquote quotes hlt ih =>
    simp only [Reading.after, List.forall_mem_append] at h
    obtain ⟨hrun, hafter⟩ := @Rune.run_withReturns_of_not isQuote rfl rfl rest
    have hr : r.char ≠ '\n' := h.1 r List.mem_cons_self
    rw [Rune.withReturns_cons_of_ne _ hr, body.eq_def]
    simp only [hback, ↓reduceIte, hquote, hrun, hafter, ih h.2]
    rw [if_pos hlt]
    rfl
  | case5 r rest hback hquote quotes hlt =>
    obtain ⟨hrun, hafter⟩ := @Rune.run_withReturns_of_not isQuote rfl rfl rest
    have hr : r.char ≠ '\n' := h r List.mem_cons_self
    rw [Rune.withReturns_cons_of_ne _ hr, body.eq_def]
    simp only [hback, ↓reduceIte, hquote, hrun, hafter]
    rw [if_neg hlt]
    rfl
  | case6 r rest hback hquote ih =>
    simp only [Reading.after, List.forall_mem_append, List.forall_mem_singleton] at h
    obtain ⟨hr, hrest⟩ := h
    rw [Rune.withReturns_cons_of_ne _ hr, body.eq_def]
    simp [hback, hquote, ih hrest, Reading.after, Reading.withReturns]

/-- A string on one line is read as before. -/
theorem read_withReturns {rs : List Rune} (h : ∀ r ∈ (read rs).taken, r.char ≠ '\n') :
    read (Rune.withReturns rs) = (read rs).withReturns := by
  obtain ⟨hrun, hafter⟩ := @Rune.run_withReturns_of_not isQuote rfl rfl rs
  simp only [read, hrun, hafter] at h ⊢
  split
  · rename_i hquotes
    rw [if_pos hquotes] at h
    simp only [Reading.after, List.forall_mem_append] at h
    rw [body_withReturns h.2]
    rfl
  · rfl

end StringLiteral

end SchemaScan
