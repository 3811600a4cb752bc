import SchemaScan.Proofs.Text.Utf8

/-! # Runes and the bytes under them

Counting runes and counting bytes agree: a stretch of runes is as long as its bytes, and has as many
line feeds. A source may be read in pieces if no piece starts with a continuation byte.
-/
namespace SchemaScan.Rune

@[simp] theorem span_nil : span [] = 0 := rfl
@[simp] theorem span_cons (r : Rune) (rs : List Rune) : span (r :: rs) = r.width + span rs := rfl
@[simp] theorem span_append (a b : List Rune) : span (a ++ b) = span a + span b := by
  induction a with
  | nil => simp
  | cons r a ih => simp [ih, Nat.add_assoc]

@[simp] theorem lineFeeds_nil : lineFeeds [] = 0 := rfl
@[simp] theorem lineFeeds_append (a b : List Rune) :
    lineFeeds (a ++ b) = lineFeeds a + lineFeeds b := List.countP_append

/-- The first character of a source, none if there is nothing in it. -/
def first (source : List UInt8) : Option Char := (read source).head?.map char

/-- A stretch of runes is as long as its bytes. -/
theorem length_flatMap_bytes (rs : List Rune) : (rs.flatMap bytes).length = span rs := by
  induction rs with
  | nil => rfl
  | cons r rs ih => simp [ih, width]

theorem width_pos (r : Rune) : 0 < r.width := by
  cases r with
  | scalar c =>
    rw [width, bytes, String.length_utf8EncodeChar]
    exact c.utf8Size_pos
  | stray b => exact Nat.zero_lt_one

theorem span_pos {rs : List Rune} (h : rs ≠ []) : 0 < span rs := by
  cases rs with
  | nil => exact absurd rfl h
  | cons r rs =>
    have := r.width_pos
    rw [span_cons]
    omega

/-! ## Reading -/

theorem read_nil : read [] = [] := by
  rw [read]
  rfl

/-- A byte that begins no character is not ASCII. -/
theorem stray_high {source : List UInt8} {b : UInt8} (h : stray b ∈ read source) :
    0x80 ≤ b.toNat := by
  fun_induction read source with
  | case1 source c rest _ ih =>
    rcases List.mem_cons.mp h with h | h
    · cases h
    · exact ih h
  | case2 => cases h
  | case3 first rest hd ih =>
    rcases List.mem_cons.mp h with h | h
    · cases h
      rcases Nat.lt_or_ge b.toNat 0x80 with hb | hb
      · rw [Utf8.decodeFirst?_ascii hb] at hd
        cases hd
      · exact hb
    · exact ih h

/-- A character is read as one rune. -/
theorem read_encode_append (c : Char) (rest : List UInt8) :
    read (String.utf8EncodeChar c ++ rest) = scalar c :: read rest := by
  have hd := Utf8.decodeFirst?_encode_append c rest
  rw [read]
  split
  · rename_i d tail h
    rw [hd] at h
    cases h
    rfl
  · rename_i h
    rw [hd] at h
    cases h

/-- A source may be read in two pieces, if the second one starts fresh. -/
theorem read_append {source more : List UInt8} (h : Utf8.StartsFresh more) :
    read (source ++ more) = read source ++ read more := by
  fun_induction read source with
  | case1 source c rest hd ih =>
    have hne : source ≠ [] := by
      rintro rfl
      cases hd
    have ha := Utf8.decodeFirst?_append hne h
    rw [hd, Option.map_some] at ha
    have hs := Utf8.eq_encode_of_decodeFirst? ha
    rw [hs, read_encode_append, ih]
    rfl
  | case2 => rfl
  | case3 b rest hd ih =>
    have ha := Utf8.decodeFirst?_append (List.cons_ne_nil b rest) h
    rw [hd, Option.map_none] at ha
    rw [read, List.cons_append]
    split
    · rename_i h'
      rw [List.cons_append] at ha
      rw [ha] at h'
      cases h'
    · simp only [ih, List.cons_append]

/-! ## Line feeds -/

/-- Among the bytes of a character there is a line feed only if it is the character. -/
theorem count_lineFeed_encode (c : Char) :
    (String.utf8EncodeChar c).count 0x0A = if c = '\n' then 1 else 0 := by
  rcases Nat.lt_or_ge c.val.toNat 0x80 with h | h
  · rw [Utf8.encode_of_ascii h, List.count_singleton]
    have hb : (UInt8.ofNat c.val.toNat).toNat = c.val.toNat := Utf8.toNat_ofNat_byte (by omega)
    have hiff : UInt8.ofNat c.val.toNat = 0x0A ↔ c = '\n' := by
      constructor
      · intro he
        rw [he] at hb
        exact Char.ext (UInt32.toNat.inj hb.symm)
      · rintro rfl
        rfl
    simp only [beq_iff_eq, hiff]
  · rw [if_neg]
    · apply List.count_eq_zero.mpr
      intro hm
      have := Utf8.high_of_mem_encode h hm
      revert this
      decide
    · rintro rfl
      revert h
      decide

/-- Runes that are read from a source have as many line feeds as their bytes. -/
theorem lineFeeds_eq_count {rs : List Rune} (h : ∀ b, stray b ∈ rs → 0x80 ≤ b.toNat) :
    lineFeeds rs = (rs.flatMap bytes).count 0x0A := by
  induction rs with
  | nil => rfl
  | cons r rs ih =>
    have ih := ih fun b hb => h b (List.mem_cons_of_mem _ hb)
    have hr : (if r.char = '\n' then 1 else 0) = r.bytes.count 0x0A := by
      cases r with
      | scalar c => exact (count_lineFeed_encode c).symm
      | stray b =>
        have hb := h b List.mem_cons_self
        have hne : b ≠ 0x0A := by
          rintro rfl
          revert hb
          decide
        simp [char, bytes, hne]
    rw [List.flatMap_cons, List.count_append, ← ih, ← hr]
    simp only [lineFeeds, List.countP_cons, decide_eq_true_eq]
    omega

/-! ## ASCII -/

theorem eq_scalar_of_char {r : Rune} {c : Char} (h : r.char = c) (hc : c ≠ '\uFFFD') :
    r = scalar c := by
  cases r with
  | scalar d => exact congrArg scalar h
  | stray b => exact absurd h.symm hc

/-- An ASCII character is one byte, that of its own number. -/
theorem bytes_of_ascii {r : Rune} (h : r.char.toNat < 0x80) :
    r.bytes = [UInt8.ofNat r.char.toNat] := by
  cases r with
  | scalar c => exact Utf8.encode_of_ascii h
  | stray b =>
    rw [char] at h
    exact absurd h (by decide)

/-- An ASCII byte is all of its rune. -/
theorem char_of_mem_bytes {r : Rune} (hr : ∀ b, r = stray b → 0x80 ≤ b.toNat) {b : UInt8}
    (hb : b ∈ r.bytes) (h : b.toNat < 0x80) : r.bytes = [b] ∧ r.char.toNat = b.toNat := by
  cases r with
  | scalar c =>
    rcases Nat.lt_or_ge c.val.toNat 0x80 with hc | hc
    · have hbytes : (scalar c).bytes = [UInt8.ofNat c.val.toNat] := bytes_of_ascii hc
      rw [hbytes, List.mem_singleton] at hb
      subst hb
      have hlt : c.val.toNat < 256 := by omega
      exact ⟨hbytes, (Utf8.toNat_ofNat_byte hlt).symm⟩
    · have := Utf8.high_of_mem_encode hc hb
      omega
  | stray x =>
    obtain rfl : b = x := List.mem_singleton.mp hb
    have := hr b rfl
    omega

/-- Without a character of ASCII among the runes, its byte is none of theirs. -/
theorem notMem_bytes {rs : List Rune} (h : ∀ b, stray b ∈ rs → 0x80 ≤ b.toNat) {c : Char}
    (hc : c.toNat < 0x80) (hrs : ∀ r ∈ rs, r.char ≠ c) :
    UInt8.ofNat c.toNat ∉ rs.flatMap bytes := by
  intro hmem
  obtain ⟨r, hr, hbr⟩ := List.mem_flatMap.mp hmem
  have hbyte : (UInt8.ofNat c.toNat).toNat = c.toNat := Utf8.toNat_ofNat_byte (by omega)
  have hchar := (char_of_mem_bytes (fun x hx => h x (hx ▸ hr)) hbr (by omega)).2
  exact hrs r hr (Char.toNat_inj.mp (hchar.trans hbyte))

/-- A character of ASCII in a source is one of its bytes. -/
theorem mem_of_mem_read {source : List UInt8} {r : Rune} (h : r ∈ read source)
    (hr : r.char.toNat < 0x80) : UInt8.ofNat r.char.toNat ∈ source := by
  rw [← flatMap_bytes_read source]
  exact List.mem_flatMap.mpr ⟨r, h, by rw [bytes_of_ascii hr]; exact List.mem_singleton_self _⟩

end SchemaScan.Rune
