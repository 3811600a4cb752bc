/-! # UTF-8

`decodeFirst?` takes one character off the front of a byte list: it succeeds exactly when the
bytes begin with the shortest form of a scalar value, and the bytes it takes are that form
(`eq_encode_of_decodeFirst?`). `lossy` reads a whole byte list as text and puts one U+FFFD in place
of each maximal broken sequence.
-/
namespace SchemaScan.Utf8

/-- The bytes `80` to `BF` continue a sequence and carry six bits each. -/
def isContinuation (b : UInt8) : Bool := 0x80 ≤ b.toNat && b.toNat ≤ 0xBF

/-- What a first byte announces: the number of continuation bytes, the leading bits, and the least
value that needs this length. -/
def lead? (b : UInt8) : Option (Nat × Nat × Nat) :=
  let n := b.toNat
  if n < 0x80 then some (0, n, 0)
  else if n < 0xC0 then none
  else if n < 0xE0 then some (1, n - 0xC0, 0x80)
  else if n < 0xF0 then some (2, n - 0xE0, 0x800)
  else if n < 0xF8 then some (3, n - 0xF0, 0x10000)
  else none

/-- Appends the bits of `count` continuation bytes to `bits`. -/
def gather : (count bits : Nat) → List UInt8 → Option (Nat × List UInt8)
  | 0, bits, rest => some (bits, rest)
  | _ + 1, _, [] => none
  | count + 1, bits, b :: rest =>
    if isContinuation b then gather count (bits * 64 + (b.toNat - 0x80)) rest else none

/-- The scalar value `n`, refused if it is below `least` and so has a shorter form. -/
def scalar? (least n : Nat) : Option Char :=
  if h : least ≤ n ∧ n.isValidChar then some (Char.ofNatAux n h.2) else none

/-- The first character of the bytes and the bytes after it. -/
def decodeFirst? : List UInt8 → Option (Char × List UInt8)
  | [] => none
  | b :: bytes =>
    match lead? b with
    | none => none
    | some (count, bits, least) =>
      match gather count bits bytes with
      | none => none
      | some (n, rest) => (scalar? least n).map (·, rest)

theorem gather_length_le {count bits n : Nat} {bytes rest : List UInt8}
    (h : gather count bits bytes = some (n, rest)) : rest.length ≤ bytes.length := by
  induction bytes generalizing count bits with
  | nil => cases count <;> simp_all [gather]
  | cons b bytes ih =>
    cases count with
    | zero => simp_all [gather]
    | succ count =>
      rw [gather] at h
      split at h
      · have := ih h
        simp only [List.length_cons]
        omega
      · exact absurd h (by simp)

/-- A decoded character takes at least one byte. -/
theorem decodeFirst?_length_lt {c : Char} {bytes rest : List UInt8}
    (h : decodeFirst? bytes = some (c, rest)) : rest.length < bytes.length := by
  cases bytes with
  | nil => simp [decodeFirst?] at h
  | cons b bytes =>
    simp only [decodeFirst?] at h
    split at h
    · simp at h
    · split at h
      · simp at h
      · rename_i hg
        obtain ⟨_, _, hr⟩ := Option.map_eq_some_iff.mp h
        cases hr
        exact Nat.lt_succ_of_le (gather_length_le hg)

/-- The character is the value itself, and needs its length. -/
theorem toNat_of_scalar? {least n : Nat} {c : Char} (h : scalar? least n = some c) :
    c.val.toNat = n ∧ least ≤ n := by
  by_cases hn : least ≤ n ∧ n.isValidChar
  · rw [scalar?, dif_pos hn] at h
    cases h
    exact ⟨rfl, hn.1⟩
  · rw [scalar?, dif_neg hn] at h
    cases h

theorem isContinuation_iff {b : UInt8} :
    isContinuation b = true ↔ 0x80 ≤ b.toNat ∧ b.toNat ≤ 0xBF := by
  simp [isContinuation]

/-- A longer gathering takes one continuation byte first. -/
theorem gather_succ {count bits n : Nat} {bytes rest : List UInt8}
    (h : gather (count + 1) bits bytes = some (n, rest)) :
    ∃ b tail, bytes = b :: tail ∧ 0x80 ≤ b.toNat ∧ b.toNat ≤ 0xBF ∧
      gather count (bits * 64 + (b.toNat - 0x80)) tail = some (n, rest) := by
  cases bytes with
  | nil => simp [gather] at h
  | cons b tail =>
    rw [gather] at h
    split at h
    · rename_i hb
      obtain ⟨h1, h2⟩ := isContinuation_iff.mp hb
      exact ⟨b, tail, rfl, h1, h2, h⟩
    · exact absurd h (by simp)

theorem ofNat_eq_byte {n : Nat} {b : UInt8} (h : n = b.toNat) : UInt8.ofNat n = b := by
  subst h
  exact UInt8.ofNat_toNat

/-- What is decoded is the shortest form of the character: encoding it again gives the bytes that
were taken. -/
theorem eq_encode_of_decodeFirst? {c : Char} {bytes rest : List UInt8}
    (h : decodeFirst? bytes = some (c, rest)) : bytes = String.utf8EncodeChar c ++ rest := by
  cases bytes with
  | nil => simp [decodeFirst?] at h
  | cons b bytes =>
    simp only [decodeFirst?] at h
    split at h
    · simp at h
    rename_i count bits least hlead
    split at h
    · simp at h
    rename_i n tail hg
    obtain ⟨_, hs, he⟩ := Option.map_eq_some_iff.mp h
    cases he
    obtain ⟨hv, hle⟩ := toNat_of_scalar? hs
    simp only [lead?] at hlead
    unfold String.utf8EncodeChar
    simp only [hv]
    split at hlead
    · cases hlead
      cases hg
      rw [if_pos (by omega)]
      simp
    split at hlead
    · simp at hlead
    split at hlead
    · simp only [Option.some.injEq, Prod.mk.injEq] at hlead
      obtain ⟨rfl, hb, hl⟩ := hlead
      obtain ⟨b1, t1, rfl, _, _, hg⟩ := gather_succ hg
      simp only [gather, Option.some.injEq, Prod.mk.injEq] at hg
      obtain ⟨hn, rfl⟩ := hg
      rw [if_neg (by omega), if_pos (by omega)]
      simp only [List.cons_append, List.nil_append]
      rw [ofNat_eq_byte (b := b) (by omega), ofNat_eq_byte (b := b1) (by omega)]
    split at hlead
    · simp only [Option.some.injEq, Prod.mk.injEq] at hlead
      obtain ⟨rfl, hb, hl⟩ := hlead
      obtain ⟨b1, t1, rfl, _, _, hg⟩ := gather_succ hg
      obtain ⟨b2, t2, rfl, _, _, hg⟩ := gather_succ hg
      simp only [gather, Option.some.injEq, Prod.mk.injEq] at hg
      obtain ⟨hn, rfl⟩ := hg
      rw [if_neg (by omega), if_neg (by omega), if_pos (by omega)]
      simp only [List.cons_append, List.nil_append]
      rw [ofNat_eq_byte (b := b) (by omega), ofNat_eq_byte (b := b1) (by omega),
        ofNat_eq_byte (b := b2) (by omega)]
    split at hlead
    · simp only [Option.some.injEq, Prod.mk.injEq] at hlead
      obtain ⟨rfl, hb, hl⟩ := hlead
      obtain ⟨b1, t1, rfl, _, _, hg⟩ := gather_succ hg
      obtain ⟨b2, t2, rfl, _, _, hg⟩ := gather_succ hg
      obtain ⟨b3, t3, rfl, _, _, hg⟩ := gather_succ hg
      simp only [gather, Option.some.injEq, Prod.mk.injEq] at hg
      obtain ⟨hn, rfl⟩ := hg
      rw [if_neg (by omega), if_neg (by omega), if_neg (by omega)]
      simp only [List.cons_append, List.nil_append]
      rw [ofNat_eq_byte (b := b) (by omega), ofNat_eq_byte (b := b1) (by omega),
        ofNat_eq_byte (b := b2) (by omega), ofNat_eq_byte (b := b3) (by omega)]
    · simp at hlead

/-- The second bytes that can follow the first byte of a sequence of three or four bytes: the
ranges leave out the longer forms of smaller values, surrogates, and values above U+10FFFF. -/
def mayFollow (first second : UInt8) : Bool :=
  let b := second.toNat
  match first.toNat with
  | 0xE0 => 0xA0 ≤ b && b ≤ 0xBF
  | 0xED => 0x80 ≤ b && b ≤ 0x9F
  | 0xF0 => 0x90 ≤ b && b ≤ 0xBF
  | 0xF4 => 0x80 ≤ b && b ≤ 0x8F
  | a => 0xE0 ≤ a && a ≤ 0xF4 && isContinuation second

/-- How many of the bytes after the undecodable byte `first` belong to the same broken sequence:
the longest stretch that could still have become a character. -/
def brokenTail (first : UInt8) : List UInt8 → Nat
  | [] => 0
  | second :: rest =>
    if !mayFollow first second then 0
    else if first.toNat < 0xF0 then 1
    else match rest with
      | [] => 1
      | third :: _ => if isContinuation third then 2 else 1

/-- The characters of the bytes, with one U+FFFD for each maximal broken sequence. -/
def lossyChars (bytes : List UInt8) : List Char :=
  match _decoded : decodeFirst? bytes with
  | some (c, rest) => c :: lossyChars rest
  | none =>
    match bytes with
    | [] => []
    | b :: rest => '\uFFFD' :: lossyChars (rest.drop (brokenTail b rest))
termination_by bytes.length
decreasing_by
  · exact decodeFirst?_length_lt _decoded
  · simp only [List.length_drop, List.length_cons]
    omega

/-- The text of the bytes, with one U+FFFD for each maximal broken sequence. -/
def lossy (bytes : List UInt8) : String := String.ofList (lossyChars bytes)

end SchemaScan.Utf8
