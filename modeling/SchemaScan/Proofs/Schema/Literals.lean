import SchemaScan.Proofs.Schema.Reads
import SchemaScan.Schema.Writing

/-! # Reading names, strings and numbers

A literal ends where its recogniser stops, so a reading depends on the character behind it.
-/
namespace SchemaScan

/-! ## Texts -/

theorem Utf8.lossyChars_encode (cs : List Char) :
    lossyChars (cs.flatMap String.utf8EncodeChar) = cs := by
  induction cs with
  | nil =>
    rw [List.flatMap_nil, lossyChars]
    rfl
  | cons c cs ih =>
    have hd := decodeFirst?_encode_append c (cs.flatMap String.utf8EncodeChar)
    rw [List.flatMap_cons, lossyChars]
    split
    · rename_i d rest h
      rw [hd] at h
      cases h
      rw [ih]
    · rename_i h
      rw [hd] at h
      cases h

theorem Rune.flatMap_bytes_scalars (cs : List Char) :
    (cs.map scalar).flatMap bytes = cs.flatMap String.utf8EncodeChar := List.flatMap_map ..

theorem Rune.read_scalars_append (cs : List Char) (tail : List UInt8) :
    read (cs.flatMap String.utf8EncodeChar ++ tail) = cs.map scalar ++ read tail := by
  induction cs with
  | nil => rfl
  | cons c cs ih =>
    rw [List.flatMap_cons, List.append_assoc, read_encode_append, ih]
    rfl

theorem Rune.text_scalars (cs : List Char) : text (cs.map scalar) = String.ofList cs := by
  rw [text, flatMap_bytes_scalars, Utf8.lossy, Utf8.lossyChars_encode]

theorem Kind.ofName_spelling (k : Keyword) : ofName k.spelling = .keyword k := by
  rw [ofName, Keyword.ofSpelling?_spelling]

/-! ## Names -/

theorem isNameContinue_of_isTerminator {c : Char} (h : NameSegment.isTerminator c = true) :
    isNameContinue c = false := by
  simp only [NameSegment.isTerminator, isSpace, Bool.or_eq_true, decide_eq_true_eq] at h
  rcases h with ((((((((((rfl | rfl) | rfl) | rfl) | rfl) | rfl) | rfl) | rfl) | rfl) | rfl) | rfl)
  all_goals decide

theorem NameSegment.read_append {cs : List Char} {tail : List Rune} (hne : cs ≠ [])
    (hcs : ∀ x ∈ cs, isNameContinue x = true)
    (ht : (tail.head?.map Rune.char).all isTerminator = true) :
    read (cs.map .scalar ++ tail) = ⟨true, cs.map .scalar, tail⟩ := by
  have hstop : (tail.head?.map Rune.char).any isNameContinue = false := by
    cases tail with
    | nil => rfl
    | cons r tail => exact isNameContinue_of_isTerminator ht
  obtain ⟨hrun, hafter⟩ := Rune.run_of_all (Rune.forall_mem_scalars hcs) hstop
  have hends : endsBefore tail = true := by
    cases tail with
    | nil => rfl
    | cons r tail => exact ht
  simp [read, hrun, hafter, hends, hne]

/-! ## Strings -/

namespace StringLiteral

theorem body_append {delimiter : Nat} {rs tail : List Rune}
    (hv : (body delimiter rs).value = true) (hr : (body delimiter rs).rest = [])
    (ht : (tail.head?.map Rune.char).any isQuote = false) :
    body delimiter (rs ++ tail) = ⟨true, rs, tail⟩ := by
  fun_induction body delimiter rs with
  | case1 => cases hv
  | case2 => cases hv
  | case3 r hback escaped rest ih =>
    have := ih hv hr
    rw [List.cons_append, List.cons_append, body]
    simp [hback, this, Reading.after]
  | case4 r rest hback hquote quotes hlt ih =>
    have := ih hv hr
    obtain ⟨hrun, hafter⟩ := Rune.run_append rest ht
    rw [List.cons_append, body.eq_def]
    simp only [hback, ↓reduceIte, hquote, hrun, hafter, hlt, this, Reading.after, quotes]
    rw [List.cons_append, Rune.run_append_afterRun]
  | case5 r rest hback hquote quotes hlt =>
    obtain ⟨hrun, hafter⟩ := Rune.run_append rest ht
    simp only [decide_eq_true_eq] at hv
    simp only at hr
    have hwhole := Rune.run_append_afterRun isQuote rest
    rw [hr, List.append_nil] at hwhole
    rw [List.cons_append, body.eq_def]
    simp only [hback, ↓reduceIte, hquote, hrun, hafter, hr, hwhole, quotes] at hv hlt ⊢
    rw [if_neg hlt, List.nil_append, decide_eq_true hv]
  | case6 r rest hback hquote ih =>
    have := ih hv hr
    rw [List.cons_append, body.eq_def]
    simp [hback, hquote, this, Reading.after]

/-- A whole string is read, if no quote follows. -/
theorem read_append {rs tail : List Rune} (hv : (read rs).value = true) (hr : (read rs).rest = [])
    (ht : (tail.head?.map Rune.char).any isQuote = false) :
    read (rs ++ tail) = ⟨true, rs, tail⟩ := by
  obtain ⟨hrun, hafter⟩ := Rune.run_append rs ht
  simp only [read, hrun, hafter] at hv hr ⊢
  split at hv
  · rename_i hq
    rw [if_pos hq] at hr ⊢
    rw [body_append hv hr ht, Reading.after]
    simp only [Rune.run_append_afterRun]
  · cases hv

/-- A string opens with a quote. -/
theorem head?_of_read {rs : List Rune} (hv : (read rs).value = true) :
    ∃ r rest, rs = r :: rest ∧ r.char = '"' := by
  cases rs with
  | nil => cases hv
  | cons r rest =>
    refine ⟨r, rest, rfl, ?_⟩
    by_cases hq : isQuote r.char = true
    · simpa [isQuote] using hq
    · simp [read, Rune.run, hq] at hv

end StringLiteral

/-! ## Numbers -/

namespace NumberLiteral

theorem optional_of_neg {p : Char → Bool} {rs : List Rune}
    (h : (rs.head?.map Rune.char).any p = false) : optional p rs = ([], rs) := by
  cases rs with
  | nil => rfl
  | cons r rest =>
    have hr : p r.char = false := h
    simp [optional, hr]

theorem fraction_of_neg {rs : List Rune} (h : (rs.head?.map Rune.char).any (· = '.') = false) :
    fraction rs = ([], rs) := by
  simp [fraction, optional_of_neg h]

theorem fraction_of_digits {digits : List Char} {tail : List Rune}
    (hd : ∀ x ∈ digits, x.isDigit = true)
    (ht : (tail.head?.map Rune.char).any Char.isDigit = false) :
    fraction (('.' :: digits).map .scalar ++ tail) = (('.' :: digits).map .scalar, tail) := by
  obtain ⟨hrun, hafter⟩ := Rune.run_of_all (Rune.forall_mem_scalars hd) ht
  simp [fraction, optional, Rune.char, hrun, hafter]

theorem exponent_of_neg {rs : List Rune}
    (h : (rs.head?.map Rune.char).any (fun c => c = 'e' || c = 'E') = false) :
    exponent rs = ([], rs) := by
  simp [exponent, optional_of_neg h]

end NumberLiteral

namespace Schema

/-- A literal may end in front of the character: a blank, a line feed, a comma or a closing
parenthesis. -/
def endsLiteral (next : Option Char) : Bool :=
  next.all fun c => c = ' ' || c = '\n' || c = ',' || c = ')'

theorem any_of_endsLiteral {next : Option Char} (h : endsLiteral next = true) {p : Char → Bool}
    (hp : p ' ' = false ∧ p '\n' = false ∧ p ',' = false ∧ p ')' = false) : next.any p = false := by
  cases next with
  | none => rfl
  | some c =>
    simp only [endsLiteral, Option.all_some, Bool.or_eq_true, decide_eq_true_eq] at h
    obtain ⟨hblank, hline, hcomma, hclose⟩ := hp
    rcases h with ((rfl | rfl) | rfl) | rfl <;> assumption

theorem isDigit_of_mem_digits (digits : List Digit) : ∀ x ∈ digits.map (·.val), x.isDigit = true := by
  intro x hx
  obtain ⟨d, -, rfl⟩ := List.mem_map.mp hx
  exact d.property

namespace Exponent

theorem letter_append (e : Exponent) (tail : List Rune) :
    NumberLiteral.optional (fun c => c = 'e' || c = 'E') (e.chars.map .scalar ++ tail) =
      ([.scalar (if e.isCapital then 'E' else 'e')],
        e.sign.chars.map .scalar ++ ((e.digits.map (·.val)).map .scalar ++ tail)) := by
  cases hc : e.isCapital <;> simp [chars, hc, NumberLiteral.optional, Rune.char]

/-- Behind the letter there is a sign, a digit, or what is behind the exponent. -/
theorem sign_append (e : Exponent) {tail : List Rune}
    (ht : e.sign = .none → e.digits = [] →
      (tail.head?.map Rune.char).any (fun c => c = '+' || c = '-') = false) :
    NumberLiteral.optional (fun c => c = '+' || c = '-')
      (e.sign.chars.map .scalar ++ ((e.digits.map (·.val)).map .scalar ++ tail)) =
      (e.sign.chars.map .scalar, (e.digits.map (·.val)).map .scalar ++ tail) := by
  cases hs : e.sign with
  | none =>
    apply NumberLiteral.optional_of_neg
    cases hd : e.digits with
    | nil => exact ht hs hd
    | cons d ds =>
      have hplus : d.val ≠ '+' := fun h => absurd d.property (h ▸ by decide)
      have hminus : d.val ≠ '-' := fun h => absurd d.property (h ▸ by decide)
      simp [ExponentSign.chars, Rune.char, hplus, hminus]
  | plus => rfl
  | minus => rfl

theorem read_append (e : Exponent) {tail : List Rune}
    (ht : endsLiteral (tail.head?.map Rune.char) = true) :
    NumberLiteral.exponent (e.chars.map .scalar ++ tail) = (e.chars.map .scalar, tail) := by
  obtain ⟨hrun, hafter⟩ := Rune.run_of_all (Rune.forall_mem_scalars (isDigit_of_mem_digits e.digits))
    (any_of_endsLiteral ht (by decide))
  have hsign : NumberLiteral.optional (fun c => c = '+' || c = '-')
      (e.sign.chars.map .scalar ++ ((e.digits.map (·.val)).map .scalar ++ tail)) = _ :=
    e.sign_append fun _ _ => any_of_endsLiteral ht (by decide)
  simp only [NumberLiteral.exponent, e.letter_append, hsign, hrun, hafter]
  simp [chars]

end Exponent

namespace Number

theorem digits_isDigit (n : Number) : ∀ x ∈ n.first.val :: n.others.map (·.val), x.isDigit = true := by
  intro x hx
  rcases List.mem_cons.mp hx with rfl | hx
  · exact n.first.property
  · exact isDigit_of_mem_digits n.others x hx

theorem exponent_append (n : Number) {tail : List Rune}
    (ht : endsLiteral (tail.head?.map Rune.char) = true) :
    NumberLiteral.exponent (n.exponentChars.map .scalar ++ tail) =
      (n.exponentChars.map .scalar, tail) := by
  cases he : n.exponent with
  | none =>
    simp only [exponentChars, he]
    exact NumberLiteral.exponent_of_neg (any_of_endsLiteral ht (by decide))
  | some e =>
    simp only [exponentChars, he]
    exact e.read_append ht

/-- In front of the exponent there stands its letter, or what is behind the number. -/
theorem head?_exponent (n : Number) {tail : List Rune} {p : Char → Bool}
    (ht : n.exponent = none → (tail.head?.map Rune.char).any p = false)
    (he : p 'e' = false ∧ p 'E' = false) :
    ((n.exponentChars.map Rune.scalar ++ tail).head?.map Rune.char).any p = false := by
  cases h : n.exponent with
  | none =>
    simp only [exponentChars, h]
    exact ht h
  | some e =>
    cases hc : e.isCapital with
    | true => simpa [exponentChars, h, Exponent.chars, hc, Rune.char] using he.2
    | false => simpa [exponentChars, h, Exponent.chars, hc, Rune.char] using he.1

/-- In front of the fraction there stands its point, or what is behind it. -/
theorem head?_fraction (n : Number) {tail : List Rune}
    (ht : n.fraction = none → (tail.head?.map Rune.char).any Char.isDigit = false) :
    ((n.fractionChars.map Rune.scalar ++ tail).head?.map Rune.char).any Char.isDigit = false := by
  cases hf : n.fraction with
  | none =>
    simp only [fractionChars, hf]
    exact ht hf
  | some digits =>
    simp only [fractionChars, hf]
    rfl

theorem sign_append (n : Number) (tail : List Rune) :
    NumberLiteral.optional (· = '-') (n.chars.map .scalar ++ tail) =
      ((if n.isNegative then ['-'] else []).map .scalar,
        (n.first.val :: n.others.map (·.val)).map .scalar ++
          (n.fractionChars.map .scalar ++ (n.exponentChars.map .scalar ++ tail))) := by
  cases hn : n.isNegative with
  | true => simp [chars, hn, NumberLiteral.optional, Rune.char]
  | false =>
    have hminus : n.first.val ≠ '-' := fun h => absurd n.first.property (h ▸ by decide)
    simp [chars, hn, NumberLiteral.optional, Rune.char, hminus]

/-- A fraction is taken where neither a point nor a digit follows. -/
theorem fraction_append (n : Number) {tail : List Rune}
    (hpoint : (tail.head?.map Rune.char).any (· = '.') = false)
    (hdigit : (tail.head?.map Rune.char).any Char.isDigit = false) :
    NumberLiteral.fraction (n.fractionChars.map .scalar ++ tail) =
      (n.fractionChars.map .scalar, tail) := by
  cases hf : n.fraction with
  | none =>
    simp only [fractionChars, hf]
    exact NumberLiteral.fraction_of_neg hpoint
  | some digits =>
    simp only [fractionChars, hf]
    exact NumberLiteral.fraction_of_digits (isDigit_of_mem_digits digits) hdigit

theorem kind_eq (n : Number) : n.kind =
    if n.fractionChars.map Rune.scalar = [] ∧ n.exponentChars.map Rune.scalar = [] then .int
    else .float := by
  cases hf : n.fraction <;> cases he : n.exponent <;>
    simp [kind, fractionChars, exponentChars, Exponent.chars, hf, he]

/-- A whole number is read, if a literal may end behind it. -/
theorem read_append (n : Number) {tail : List Rune}
    (ht : endsLiteral (tail.head?.map Rune.char) = true) :
    NumberLiteral.read (n.chars.map .scalar ++ tail) =
      ⟨some n.kind, n.chars.map .scalar, tail⟩ := by
  have hdigit : ((n.exponentChars.map Rune.scalar ++ tail).head?.map Rune.char).any Char.isDigit = false :=
    n.head?_exponent (fun _ => any_of_endsLiteral ht (by decide)) (by decide)
  have hpoint : ((n.exponentChars.map Rune.scalar ++ tail).head?.map Rune.char).any (· = '.') = false :=
    n.head?_exponent (fun _ => any_of_endsLiteral ht (by decide)) (by decide)
  obtain ⟨hrun, hafter⟩ := Rune.run_of_all (Rune.forall_mem_scalars n.digits_isDigit)
    (n.head?_fraction fun _ => hdigit)
  simp only [NumberLiteral.read, n.sign_append, hrun, hafter, n.fraction_append hpoint hdigit,
    n.exponent_append ht, ← n.kind_eq]
  simp [chars]

end Number

end Schema

end SchemaScan
