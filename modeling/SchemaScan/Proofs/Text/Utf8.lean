import SchemaScan.Text.Rune

/-! # Encoded characters

Decoding is the inverse of encoding. A sequence that breaks off cannot be completed by a byte that
continues none, so a text may be decoded piece by piece.
-/
namespace SchemaScan.Utf8

theorem toNat_ofNat_byte {n : Nat} (h : n < 256) : (UInt8.ofNat n).toNat = n := by
  rw [UInt8.toNat_ofNat']
  exact Nat.mod_eq_of_lt h

/-- Below U+0080 a character is its own byte. -/
theorem encode_of_ascii {c : Char} (h : c.val.toNat < 0x80) :
    String.utf8EncodeChar c = [UInt8.ofNat c.val.toNat] := by
  unfold String.utf8EncodeChar
  rw [if_pos (by omega)]

/-- From U+0080 on no byte of a character is ASCII. -/
theorem high_of_mem_encode {c : Char} (h : 0x80 ≤ c.val.toNat) {b : UInt8}
    (hb : b ∈ String.utf8EncodeChar c) : 0x80 ≤ b.toNat := by
  unfold String.utf8EncodeChar at hb
  rw [if_neg (by omega)] at hb
  split at hb
  · simp only [List.mem_cons, List.not_mem_nil, or_false] at hb
    rcases hb with rfl | rfl <;> rw [toNat_ofNat_byte (by omega)] <;> omega
  · split at hb
    · simp only [List.mem_cons, List.not_mem_nil, or_false] at hb
      rcases hb with rfl | rfl | rfl <;> rw [toNat_ofNat_byte (by omega)] <;> omega
    · simp only [List.mem_cons, List.not_mem_nil, or_false] at hb
      rcases hb with rfl | rfl | rfl | rfl <;> rw [toNat_ofNat_byte (by omega)] <;> omega

theorem scalar?_toNat {least : Nat} {c : Char} (h : least ≤ c.val.toNat) :
    scalar? least c.val.toNat = some c := by
  have hv : least ≤ c.val.toNat ∧ c.val.toNat.isValidChar := ⟨h, c.valid⟩
  unfold scalar?
  rw [dif_pos hv]
  congr 1

theorem gather_cons {count bits : Nat} {b : UInt8} {rest : List UInt8} (h : isContinuation b = true) :
    gather (count + 1) bits (b :: rest) = gather count (bits * 64 + (b.toNat - 0x80)) rest := by
  rw [gather, if_pos h]

/-- A byte between `80` and `BF` passes its six bits on. -/
theorem gather_continuation {count bits n : Nat} {rest : List UInt8} (h : n < 64) :
    gather (count + 1) bits (UInt8.ofNat (n + 0x80) :: rest) = gather count (bits * 64 + n) rest := by
  have hn : (UInt8.ofNat (n + 0x80)).toNat = n + 0x80 := toNat_ofNat_byte (by omega)
  rw [gather_cons (by rw [isContinuation_iff, hn]; omega), hn, Nat.add_sub_cancel]

/-- The encoded form of a character is decoded to that character, whatever follows. -/
theorem decodeFirst?_encode_append (c : Char) (rest : List UInt8) :
    decodeFirst? (String.utf8EncodeChar c ++ rest) = some (c, rest) := by
  have hmax : c.val.toNat < 0x110000 := by
    have := c.valid
    simp only [UInt32.isValidChar, Nat.isValidChar] at this
    omega
  unfold String.utf8EncodeChar
  generalize hv : c.val.toNat = v at hmax
  dsimp only
  split
  · have hb : (UInt8.ofNat v).toNat = v := toNat_ofNat_byte (by omega)
    have hl : lead? (UInt8.ofNat v) = some (0, v, 0) := by
      simp only [lead?, hb]
      rw [if_pos (by omega)]
    simp only [List.cons_append, List.nil_append, decodeFirst?, hl, gather]
    rw [← hv, scalar?_toNat (Nat.zero_le _)]
    rfl
  · split
    · have hb : (UInt8.ofNat (v / 64 % 0x20 + 0xc0)).toNat = v / 64 % 0x20 + 0xc0 :=
        toNat_ofNat_byte (by omega)
      have hl : lead? (UInt8.ofNat (v / 64 % 0x20 + 0xc0)) = some (1, v / 64 % 0x20, 0x80) := by
        simp only [lead?, hb]
        rw [if_neg (by omega), if_neg (by omega), if_pos (by omega), Nat.add_sub_cancel]
      simp only [List.cons_append, List.nil_append, decodeFirst?, hl]
      rw [gather_continuation (by omega), gather,
        show v / 64 % 0x20 * 64 + v % 0x40 = v by omega]
      simp only
      rw [← hv, scalar?_toNat (by omega)]
      rfl
    · split
      · have hb : (UInt8.ofNat (v / 4096 % 0x10 + 0xe0)).toNat = v / 4096 % 0x10 + 0xe0 :=
          toNat_ofNat_byte (by omega)
        have hl : lead? (UInt8.ofNat (v / 4096 % 0x10 + 0xe0)) =
            some (2, v / 4096 % 0x10, 0x800) := by
          simp only [lead?, hb]
          rw [if_neg (by omega), if_neg (by omega), if_neg (by omega), if_pos (by omega),
            Nat.add_sub_cancel]
        simp only [List.cons_append, List.nil_append, decodeFirst?, hl]
        rw [gather_continuation (by omega), gather_continuation (by omega), gather,
          show (v / 4096 % 0x10 * 64 + v / 64 % 0x40) * 64 + v % 0x40 = v by omega]
        simp only
        rw [← hv, scalar?_toNat (by omega)]
        rfl
      · have hb : (UInt8.ofNat (v / 262144 % 0x08 + 0xf0)).toNat = v / 262144 % 0x08 + 0xf0 :=
          toNat_ofNat_byte (by omega)
        have hl : lead? (UInt8.ofNat (v / 262144 % 0x08 + 0xf0)) =
            some (3, v / 262144 % 0x08, 0x10000) := by
          simp only [lead?, hb]
          rw [if_neg (by omega), if_neg (by omega), if_neg (by omega), if_neg (by omega),
            if_pos (by omega), Nat.add_sub_cancel]
        simp only [List.cons_append, List.nil_append, decodeFirst?, hl]
        rw [gather_continuation (by omega), gather_continuation (by omega),
          gather_continuation (by omega), gather,
          show ((v / 262144 % 0x08 * 64 + v / 4096 % 0x40) * 64 + v / 64 % 0x40) * 64 + v % 0x40 = v
            by omega]
        simp only
        rw [← hv, scalar?_toNat (by omega)]
        rfl

/-- An ASCII byte is a character of its own. -/
theorem decodeFirst?_ascii {b : UInt8} (h : b.toNat < 0x80) (rest : List UInt8) :
    decodeFirst? (b :: rest) = some (Char.ofNat b.toNat, rest) := by
  have hv : (Char.ofNat b.toNat).val.toNat = b.toNat := by
    have hb : b.toNat.isValidChar := Or.inl (by omega)
    rw [Char.ofNat, dif_pos hb]
    rfl
  have he := encode_of_ascii (c := Char.ofNat b.toNat) (by rw [hv]; exact h)
  rw [hv, UInt8.ofNat_toNat] at he
  have := decodeFirst?_encode_append (Char.ofNat b.toNat) rest
  rwa [he] at this

/-! ## Decoding piece by piece -/

/-- Nothing that came before can take the first byte as a continuation. -/
def StartsFresh (bytes : List UInt8) : Prop := ∀ b ∈ bytes.head?, isContinuation b = false

theorem startsFresh_nil : StartsFresh [] := by
  intro b hb
  cases hb

/-- Characters start fresh. -/
theorem startsFresh_encode_append (c : Char) (rest : List UInt8) :
    StartsFresh (String.utf8EncodeChar c ++ rest) := by
  intro b hb
  have hl := decodeFirst?_encode_append c rest
  cases hbytes : String.utf8EncodeChar c ++ rest with
  | nil =>
    rw [hbytes] at hb
    cases hb
  | cons first tail =>
    rw [hbytes, List.head?_cons, Option.mem_def, Option.some.injEq] at hb
    subst hb
    rw [hbytes] at hl
    cases hc : isContinuation first with
    | false => rfl
    | true =>
      rw [isContinuation_iff] at hc
      have hn : lead? first = none := by
        simp only [lead?]
        rw [if_neg (by omega), if_pos (by omega)]
      simp [decodeFirst?, hn] at hl

theorem gather_append {count bits : Nat} {bytes more : List UInt8} (h : StartsFresh more) :
    gather count bits (bytes ++ more) = (gather count bits bytes).map fun r => (r.1, r.2 ++ more) := by
  induction bytes generalizing count bits with
  | nil =>
    cases count with
    | zero => rfl
    | succ count =>
      cases more with
      | nil => rfl
      | cons b more =>
        have hb : isContinuation b = false := h b rfl
        simp [gather, hb]
  | cons b bytes ih =>
    cases count with
    | zero => rfl
    | succ count =>
      simp only [List.cons_append, gather]
      split
      · exact ih
      · rfl

/-- What follows fresh does not change how a text begins. -/
theorem decodeFirst?_append {bytes more : List UInt8} (hb : bytes ≠ []) (h : StartsFresh more) :
    decodeFirst? (bytes ++ more) = (decodeFirst? bytes).map fun r => (r.1, r.2 ++ more) := by
  cases bytes with
  | nil => exact absurd rfl hb
  | cons b bytes =>
    simp only [List.cons_append, decodeFirst?]
    cases hl : lead? b with
    | none => rfl
    | some lead =>
      obtain ⟨count, bits, least⟩ := lead
      simp only [gather_append h]
      cases hg : gather count bits bytes with
      | none => rfl
      | some r =>
        obtain ⟨n, rest⟩ := r
        simp only [Option.map_some]
        cases scalar? least n <;> rfl

end SchemaScan.Utf8
