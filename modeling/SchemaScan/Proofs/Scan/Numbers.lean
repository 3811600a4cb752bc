import SchemaScan.Proofs.Scan.Moves
import SchemaScan.Proofs.Scan.Readings
import SchemaScan.Proofs.Schema.Literals

/-! # Numbers

At its place in the source a number is the longest one of a form that lets digits be missing behind the point
and in the exponent. It is a number with all its digits exactly if none of them are missing.
-/
namespace SchemaScan

open Schema

namespace Rune

theorem scalar_of_isDigit {r : Rune} (h : r.char.isDigit = true) : r = scalar r.char := by
  refine eq_scalar_of_char rfl fun hc => ?_
  rw [hc] at h
  exact absurd h (by decide)

theorem run_append_of_all {p : Char → Bool} {rs : List Rune} (h : ∀ r ∈ rs, p r.char = true)
    (tail : List Rune) : run p (rs ++ tail) = rs ++ run p tail :=
  List.takeWhile_append_of_pos h

/-- A run of digits, as digits. -/
theorem exists_digits (rs : List Rune) :
    ∃ digits : List Digit, run Char.isDigit rs = (digits.map (·.val)).map scalar := by
  induction rs with
  | nil => exact ⟨[], rfl⟩
  | cons r rs ih =>
    by_cases hr : r.char.isDigit = true
    · obtain ⟨digits, hdigits⟩ := ih
      refine ⟨⟨r.char, hr⟩ :: digits, ?_⟩
      have hrun : run Char.isDigit (r :: rs) = r :: run Char.isDigit rs := List.takeWhile_cons_of_pos hr
      rw [hrun, hdigits, List.map_cons, List.map_cons, ← scalar_of_isDigit hr]
    · exact ⟨[], List.takeWhile_cons_of_neg hr⟩

end Rune

/-! ## The form of what is read -/

namespace NumberLiteral

theorem optional_cases (p : Char → Bool) (rs : List Rune) :
    (optional p rs).1 = [] ∨ ∃ r : Rune, p r.char = true ∧ (optional p rs).1 = [r] := by
  cases rs with
  | nil => exact .inl rfl
  | cons r rest =>
    simp only [optional]
    split
    · rename_i hr
      exact .inr ⟨r, hr, rfl⟩
    · exact .inl rfl

theorem optional_mark (c : Char) (hc : c ≠ '\uFFFD') (rs : List Rune) :
    ∃ isThere : Bool, (optional (· = c) rs).1 = (if isThere then [c] else []).map .scalar := by
  obtain h | ⟨r, hr, h⟩ := optional_cases (· = c) rs
  · exact ⟨false, h⟩
  · have hr : r.char = c := by simpa using hr
    exact ⟨true, by rw [h, Rune.eq_scalar_of_char hr hc]; rfl⟩

theorem exists_of_fraction (rs : List Rune) : ∃ digits : Option (List Digit),
    (fraction rs).1 = (digits.elim [] fun ds => '.' :: ds.map (·.val)).map .scalar := by
  unfold fraction
  split
  · exact ⟨none, rfl⟩
  · rename_i point rest hne hpoint
    obtain ⟨isThere, h⟩ := optional_mark '.' (by decide) rs
    rw [hpoint] at h
    cases isThere with
    | false => exact absurd h hne
    | true =>
      obtain rfl : point = [.scalar '.'] := h
      obtain ⟨digits, hdigits⟩ := Rune.exists_digits rest
      refine ⟨some digits, ?_⟩
      rw [hdigits]
      rfl

theorem exists_of_sign (rs : List Rune) : ∃ sign : ExponentSign,
    (optional (fun c => c = '+' || c = '-') rs).1 = sign.chars.map .scalar := by
  obtain h | ⟨r, hr, h⟩ := optional_cases (fun c => c = '+' || c = '-') rs
  · exact ⟨.none, h⟩
  · rw [h]
    obtain hr | hr : r.char = '+' ∨ r.char = '-' := by simpa using hr
    · exact ⟨.plus, by rw [Rune.eq_scalar_of_char hr (by decide)]; rfl⟩
    · exact ⟨.minus, by rw [Rune.eq_scalar_of_char hr (by decide)]; rfl⟩

theorem exists_of_exponent (rs : List Rune) : ∃ e : Option Exponent,
    (exponent rs).1 = (e.elim [] Exponent.chars).map .scalar := by
  unfold exponent
  split
  · exact ⟨none, rfl⟩
  · rename_i letter rest hne hletter
    obtain h | ⟨r, hr, h⟩ := optional_cases (fun c => c = 'e' || c = 'E') rs
    · rw [hletter] at h
      exact absurd h hne
    · rw [hletter] at h
      obtain rfl : letter = [r] := h
      obtain ⟨sign, hsign⟩ := exists_of_sign rest
      obtain ⟨digits, hdigits⟩ := Rune.exists_digits (optional (fun c => c = '+' || c = '-') rest).2
      obtain hr | hr : r.char = 'e' ∨ r.char = 'E' := by simpa using hr
      · refine ⟨some ⟨false, sign, digits⟩, ?_⟩
        simp [hsign, hdigits, Rune.eq_scalar_of_char hr (by decide), Exponent.chars]
      · refine ⟨some ⟨true, sign, digits⟩, ?_⟩
        simp [hsign, hdigits, Rune.eq_scalar_of_char hr (by decide), Exponent.chars]

/-- What is read as a number has the form of a number. -/
theorem exists_of_read {rs : List Rune} {kind : Kind} (h : (read rs).value = some kind) :
    ∃ n : Number, (read rs).taken = n.chars.map .scalar ∧ kind = n.kind := by
  obtain ⟨isNegative, hsign⟩ := optional_mark '-' (by decide) rs
  simp only [read] at h ⊢
  split at h
  · cases h
  · rename_i hne
    obtain ⟨digits, hdigits⟩ := Rune.exists_digits (optional (· = '-') rs).2
    obtain ⟨fraction, hfraction⟩ := exists_of_fraction
      (Rune.afterRun Char.isDigit (optional (· = '-') rs).2)
    obtain ⟨exponent, hexponent⟩ := exists_of_exponent
      (NumberLiteral.fraction (Rune.afterRun Char.isDigit (optional (· = '-') rs).2)).2
    cases digits with
    | nil => exact absurd hdigits hne
    | cons first others =>
      let n : Number := ⟨isNegative, first, others, fraction, exponent⟩
      have hf : n.fractionChars = fraction.elim [] fun ds => '.' :: ds.map (·.val) := by
        cases fraction <;> rfl
      have he : n.exponentChars = exponent.elim [] Exponent.chars := by
        cases exponent <;> rfl
      rw [← hf] at hfraction
      rw [← he] at hexponent
      refine ⟨n, ?_, ?_⟩
      · rw [if_neg hne, hsign, hdigits, hfraction, hexponent]
        simp [n, Number.chars]
      · rw [n.kind_eq, ← hfraction, ← hexponent]
        exact (Option.some.inj h).symm

end NumberLiteral

/-! ## The longest number -/

namespace Schema

theorem run_digits (digits : List Digit) (tail : List Rune) :
    Rune.run Char.isDigit ((digits.map (·.val)).map .scalar ++ tail) =
      (digits.map (·.val)).map .scalar ++ Rune.run Char.isDigit tail :=
  Rune.run_append_of_all (Rune.forall_mem_scalars (isDigit_of_mem_digits digits)) tail

/-- An exponent is taken, and perhaps more behind it. -/
theorem Exponent.prefix_taken (e : Exponent) (tail : List Rune) :
    e.chars.map .scalar <+: (NumberLiteral.exponent (e.chars.map .scalar ++ tail)).1 := by
  simp only [NumberLiteral.exponent, e.letter_append]
  by_cases hbare : e.sign = .none ∧ e.digits = []
  · simp [chars, hbare, ExponentSign.chars, List.cons_prefix_cons]
  · have hsign : NumberLiteral.optional (fun c => c = '+' || c = '-')
        (e.sign.chars.map .scalar ++ ((e.digits.map (·.val)).map .scalar ++ tail)) = _ :=
      e.sign_append fun hs hd => absurd ⟨hs, hd⟩ hbare
    refine ⟨Rune.run Char.isDigit tail, ?_⟩
    simp only [hsign, run_digits]
    simp [chars]

namespace Number

/-- The fraction of a number is taken, and perhaps more digits behind it. -/
theorem fraction_prefix_taken (n : Number) (h : n.fraction ≠ none) (tail : List Rune) :
    n.fractionChars.map .scalar <+: (NumberLiteral.fraction (n.fractionChars.map .scalar ++ tail)).1 := by
  obtain ⟨digits, hf⟩ := Option.ne_none_iff_exists'.mp h
  refine ⟨Rune.run Char.isDigit tail, ?_⟩
  simp only [fractionChars, hf, List.map_cons, List.cons_append, NumberLiteral.fraction,
    NumberLiteral.optional, Rune.char, decide_true, ↓reduceIte, run_digits]
  rfl

/-- A number is taken, and perhaps more behind it. -/
theorem prefix_taken (n : Number) (tail : List Rune) :
    n.chars.map .scalar <+: (NumberLiteral.read (n.chars.map .scalar ++ tail)).taken := by
  have hdigits := Rune.forall_mem_scalars n.digits_isDigit
  have hchars : n.chars.map Rune.scalar = (if n.isNegative then ['-'] else []).map .scalar ++
      (n.first.val :: n.others.map (·.val)).map .scalar ++ n.fractionChars.map .scalar ++
        n.exponentChars.map .scalar := by simp [chars]
  by_cases hwhole : n.fraction = none ∧ n.exponent = none
  · -- the run of digits may go on behind the number
    obtain ⟨more, hmore⟩ : ∃ more, Rune.run Char.isDigit
        ((n.first.val :: n.others.map (·.val)).map .scalar ++
          (n.fractionChars.map .scalar ++ (n.exponentChars.map .scalar ++ tail))) =
        (n.first.val :: n.others.map (·.val)).map .scalar ++ more :=
      ⟨_, Rune.run_append_of_all hdigits _⟩
    simp only [NumberLiteral.read, n.sign_append, hmore]
    simp [chars, fractionChars, exponentChars, hwhole, List.append_assoc]
  · have hdigit : ((n.fractionChars.map Rune.scalar ++
        (n.exponentChars.map Rune.scalar ++ tail)).head?.map Rune.char).any Char.isDigit = false :=
      n.head?_fraction fun hf => n.head?_exponent (fun he => absurd ⟨hf, he⟩ hwhole) (by decide)
    obtain ⟨hrun, hafter⟩ := Rune.run_of_all hdigits hdigit
    have hne : (n.first.val :: n.others.map (·.val)).map Rune.scalar ≠ [] := by simp
    simp only [NumberLiteral.read, n.sign_append, hrun, hafter, if_neg hne]
    rw [hchars]
    cases he : n.exponent with
    | none =>
      have hnone : n.exponentChars = [] := by simp only [exponentChars, he]
      have hfraction : n.fraction ≠ none := fun hf => hwhole ⟨hf, he⟩
      rw [hnone, List.map_nil, List.append_nil, List.nil_append]
      exact ((List.prefix_append_right_inj _).mpr (n.fraction_prefix_taken hfraction tail)).trans
        (List.prefix_append _ _)
    | some e =>
      have hsome : n.exponentChars = e.chars := by simp only [exponentChars, he]
      have hbehind {p : Char → Bool} (hp : p 'e' = false ∧ p 'E' = false) :
          ((n.exponentChars.map Rune.scalar ++ tail).head?.map Rune.char).any p = false :=
        n.head?_exponent (fun h => by rw [he] at h; cases h) hp
      rw [n.fraction_append (hbehind (by decide)) (hbehind (by decide)), hsome]
      exact (List.prefix_append_right_inj _).mpr (e.prefix_taken tail)

end Number

/-! ## Numbers with the same characters -/

theorem scalars_injective : Function.Injective (List.map Rune.scalar) :=
  List.map_injective_iff.mpr fun _ _ => Rune.scalar.inj

theorem digits_injective : Function.Injective (List.map (Subtype.val : Digit → Char)) :=
  List.map_injective_iff.mpr Subtype.val_injective

theorem ExponentSign.chars_injective : Function.Injective ExponentSign.chars := by
  intro s t h
  cases s <;> cases t <;> simp_all [chars]

theorem Exponent.chars_injective : Function.Injective Exponent.chars := by
  intro d e h
  have hletter := d.letter_append []
  rw [h, e.letter_append, Prod.mk.injEq] at hletter
  obtain ⟨hletter, hrest⟩ := hletter
  have hsign := @Exponent.sign_append d [] fun _ _ => rfl
  rw [← hrest, e.sign_append fun _ _ => rfl, Prod.mk.injEq, List.append_nil, List.append_nil] at hsign
  have hcapital : e.isCapital = d.isCapital := by
    cases hd : d.isCapital <;> cases he : e.isCapital <;> simp_all
  have hplus : e.sign = d.sign := ExponentSign.chars_injective (scalars_injective hsign.1)
  have hdigits : e.digits = d.digits := digits_injective (scalars_injective hsign.2)
  obtain ⟨isCapital, sign, digits⟩ := d
  obtain ⟨isCapital', sign', digits'⟩ := e
  obtain rfl : isCapital' = isCapital := hcapital
  obtain rfl : sign' = sign := hplus
  obtain rfl : digits' = digits := hdigits
  rfl

namespace Number

/-- The parts of a number, one after the other. -/
theorem parts_taken (n : Number) :
    let digits := (n.first.val :: n.others.map (·.val)).map Rune.scalar
    let behind := n.fractionChars.map Rune.scalar ++ n.exponentChars.map Rune.scalar
    Rune.run Char.isDigit (digits ++ behind) = digits ∧
      Rune.afterRun Char.isDigit (digits ++ behind) = behind ∧
      NumberLiteral.fraction behind = (n.fractionChars.map .scalar, n.exponentChars.map .scalar) := by
  intro digits behind
  have hhead {p : Char → Bool} (hp : p 'e' = false ∧ p 'E' = false) :
      ((n.exponentChars.map Rune.scalar).head?.map Rune.char).any p = false := by
    have h := @head?_exponent n [] p (fun _ => rfl) hp
    rwa [List.append_nil] at h
  obtain ⟨hrun, hafter⟩ := Rune.run_of_all (Rune.forall_mem_scalars n.digits_isDigit)
    (n.head?_fraction fun _ => hhead (by decide))
  exact ⟨hrun, hafter, n.fraction_append (hhead (by decide)) (hhead (by decide))⟩

theorem fraction_of_chars {m n : Number} (h : m.fractionChars = n.fractionChars) :
    m.fraction = n.fraction := by
  simp only [fractionChars] at h
  split at h <;> split at h
  · rename_i _ hm _ hn
    rw [hm, hn]
  · cases h
  · cases h
  · rename_i _ _ hm _ _ hn
    rw [hm, hn, digits_injective (List.cons.inj h).2]

theorem exponent_of_chars {m n : Number} (h : m.exponentChars = n.exponentChars) :
    m.exponent = n.exponent := by
  simp only [exponentChars] at h
  split at h <;> split at h
  · rename_i _ hm _ hn
    rw [hm, hn]
  · cases h
  · cases h
  · rename_i _ _ hm _ _ hn
    rw [hm, hn, Exponent.chars_injective h]

theorem chars_injective : Function.Injective chars := by
  intro m n h
  have hsign := m.sign_append []
  rw [h, n.sign_append, List.append_nil, List.append_nil, Prod.mk.injEq] at hsign
  obtain ⟨hminus, hrest⟩ := hsign
  obtain ⟨hrun, hafter, hbehind⟩ := m.parts_taken
  obtain ⟨hrun', hafter', hbehind'⟩ := n.parts_taken
  rw [← hrest, hrun'] at hrun
  rw [← hrest, hafter'] at hafter
  rw [← hafter, hbehind', Prod.mk.injEq] at hbehind
  have hnegative : n.isNegative = m.isNegative := by
    cases hm : m.isNegative <;> cases hn : n.isNegative <;> simp_all
  have hdigits : n.first :: n.others = m.first :: m.others := digits_injective (scalars_injective hrun)
  obtain ⟨hfirst, hothers⟩ := List.cons.inj hdigits
  have hfraction : n.fraction = m.fraction := fraction_of_chars (scalars_injective hbehind.1)
  have hexponent : n.exponent = m.exponent := exponent_of_chars (scalars_injective hbehind.2)
  obtain ⟨isNegative, first, others, fraction, exponent⟩ := m
  obtain ⟨isNegative', first', others', fraction', exponent'⟩ := n
  obtain rfl : isNegative' = isNegative := hnegative
  obtain rfl : first' = first := hfirst
  obtain rfl : others' = others := hothers
  obtain rfl : fraction' = fraction := hfraction
  obtain rfl : exponent' = exponent := hexponent
  rfl

/-! ## Numbers of a source -/

def bytes (n : Number) : List UInt8 := n.chars.flatMap String.utf8EncodeChar

/-- If there is a point, digits stand behind it, and if there is an exponent, it has digits. -/
def IsComplete (n : Number) : Prop := n.fraction ≠ some [] ∧ ∀ e, n.exponent = some e → e.digits ≠ []

/-- Of the numbers of this form at the front of the source, this one is the longest. -/
structure IsLongest (form : Number → Prop) (n : Number) (source : List UInt8) : Prop where
  fits : form n
  stands : n.bytes <+: source
  longest : ∀ m : Number, form m → m.bytes <+: source → m.bytes.length ≤ n.bytes.length

theorem IsLongest.restrict {form more : Number → Prop} {n : Number} {source : List UInt8}
    (h : n.IsLongest form source) (hmore : ∀ m, more m → form m) (hn : more n) :
    n.IsLongest more source :=
  ⟨hn, h.stands, fun m hm => h.longest m (hmore m hm)⟩

/-- What is read as a number is the longest one. -/
theorem isLongest_of_read {n : Number} {source : List UInt8}
    (h : (NumberLiteral.read (Rune.read source)).taken = n.chars.map .scalar) :
    n.IsLongest (fun _ => True) source := by
  refine ⟨trivial, ?_, ?_⟩
  · have hsplit := NumberLiteral.read_taken_append_rest (Rune.read source)
    refine ⟨(NumberLiteral.read (Rune.read source)).rest.flatMap Rune.bytes, ?_⟩
    conv_rhs => rw [← Rune.flatMap_bytes_read source, ← hsplit, List.flatMap_append, h]
    rw [Rune.flatMap_bytes_scalars]
    rfl
  · rintro m - ⟨tail, rfl⟩
    rw [bytes, Rune.read_scalars_append] at h
    obtain ⟨more, hmore⟩ : m.chars.map Rune.scalar <+: n.chars.map Rune.scalar := h ▸ m.prefix_taken _
    have hbytes := congrArg (List.flatMap Rune.bytes) hmore
    rw [List.flatMap_append, Rune.flatMap_bytes_scalars, Rune.flatMap_bytes_scalars] at hbytes
    change m.bytes ++ _ = n.bytes at hbytes
    rw [← hbytes, List.length_append]
    exact Nat.le_add_right _ _

end Number

end Schema

/-- Integers and floating-point numbers are what the recogniser of numbers takes. -/
theorem Takes.number_value {mode : Mode} {rest taken : List Rune} {kind : Kind}
    (h : Takes mode rest kind taken) (hk : kind = .int ∨ kind = .float) :
    (NumberLiteral.read rest).value = some kind ∧ taken = (NumberLiteral.read rest).taken := by
  cases h with
  | number hvalue => exact ⟨hvalue, rfl⟩
  | mark m _ => simp at hk
  | comment _ _ => simp at hk
  | string role _ => cases role <;> simp [StringRole.kind] at hk
  | name _ =>
    unfold Kind.ofName at hk
    split at hk <;> simp at hk

/-- An integer or a floating-point number of a source is the longest number at its place. -/
theorem Trace.exists_number {mode : Mode} {source : List UInt8} {base : Nat} {item : Item}
    (h : item ∈ (ofSource mode source).items base) (hk : item.kind = .int ∨ item.kind = .float) :
    ∃ (start : Nat) (n : Number), item.pos = base + start ∧ item.text.toList = n.chars ∧
      item.kind = n.kind ∧ n.IsLongest (fun _ => True) (source.drop start) := by
  rcases List.mem_append.mp h with htoken | hterminal
  · obtain ⟨l, hl, rfl⟩ := List.mem_map.mp htoken
    obtain ⟨before, rest, hread, hstart, htakes⟩ := exists_takes hl
    obtain ⟨hvalue, htaken⟩ := htakes.number_value hk
    obtain ⟨n, hn, hkind⟩ := NumberLiteral.exists_of_read hvalue
    refine ⟨l.start, n, rfl, ?_, hkind, ?_⟩
    · change (Rune.text l.runes).toList = n.chars
      rw [htaken, hn, Rune.text_scalars, String.toList_ofList]
    · apply Number.isLongest_of_read
      rw [hstart, Rune.read_drop hread, hn]
  · obtain rfl := List.mem_singleton.mp hterminal
    cases hend : (ofSource mode source).terminal <;> simp [hend, Terminal.item] at hk

/-- The numbers of a scan are the longest ones at their places. Such a number is the longest of those without
missing digits exactly if none of its own are missing. -/
theorem Document.numbers_of_scan {doc : Document} {source : List UInt8} (h : source.length = doc.size)
    (mode : Mode) : ∃ items after, doc.scan source mode = .ok (items, after) ∧
      ∀ item ∈ items, item.kind = .int ∨ item.kind = .float →
        ∃ (start : Nat) (n : Number), item.pos = doc.base + start ∧ item.text.toList = n.chars ∧
          item.kind = n.kind ∧ n.IsLongest (fun _ => True) (source.drop start) ∧
          ((∃ m : Number, item.text.toList = m.chars ∧ item.kind = m.kind ∧
            m.IsLongest Number.IsComplete (source.drop start)) ↔ n.IsComplete) := by
  refine ⟨_, _, doc.scan_of_size h mode, fun item hitem hk => ?_⟩
  obtain ⟨start, n, hpos, htext, hkind, hlongest⟩ := Trace.exists_number hitem hk
  refine ⟨start, n, hpos, htext, hkind, hlongest, ?_, ?_⟩
  · rintro ⟨m, hm, -, hcomplete⟩
    obtain rfl : m = n := Number.chars_injective (hm.symm.trans htext)
    exact hcomplete.fits
  · exact fun hn => ⟨n, htext, hkind, hlongest.restrict (fun _ _ => trivial) hn⟩

/-- A member whose default value ends with a point. -/
theorem Document.numbers_of_scan_point :
    let doc : Document := { name := "a", base := 1, size := 18 }
    let source := "schema \x7ba:T = 1. \x7d".toUTF8.data.toList
    source.length = doc.size ∧ ∃ items after, doc.scan source {} = .ok (items, after) ∧
      ∀ item ∈ items, item.kind = .int ∨ item.kind = .float →
        ∃ (start : Nat) (n : Number), item.pos = doc.base + start ∧ item.text.toList = n.chars ∧
          item.kind = n.kind ∧ n.IsLongest (fun _ => True) (source.drop start) ∧
          ((∃ m : Number, item.text.toList = m.chars ∧ item.kind = m.kind ∧
            m.IsLongest Number.IsComplete (source.drop start)) ↔ n.IsComplete) := by
  have hsize : "schema \x7ba:T = 1. \x7d".toUTF8.data.toList.length = 18 := by decide +kernel
  exact ⟨hsize, Document.numbers_of_scan hsize {}⟩

/-- The point belongs to the number, and no digits stand behind it. -/
theorem Document.scan_bare_point :
    ∃ items after, ({ name := "a", base := 1, size := 18 } : Document).scan
        "schema \x7ba:T = 1. \x7d".toUTF8.data.toList {} = .ok (items, after) ∧
      ⟨.float, 15, "1.", 1⟩ ∈ items ∧ ∀ m : Number, m.IsComplete → "1.".toList ≠ m.chars := by
  refine ⟨_, _, if_pos (by decide +kernel), by decide +kernel, fun m hm h => ?_⟩
  let n : Number := ⟨false, ⟨'1', rfl⟩, [], some [], none⟩
  have hn : "1.".toList = n.chars := by decide
  obtain rfl : m = n := Number.chars_injective (h.symm.trans hn)
  exact hm.1 rfl

end SchemaScan
