import SchemaScan.Proofs.Text.Runes

/-! # Lossy texts

The text of a stretch of runes has the characters of the runes, except that one U+FFFD may stand for
several stray bytes in a row. Reading the bytes of a stretch alone gives the same runes as reading them
where they stand.
-/
namespace SchemaScan

namespace Rune

theorem read_of_none {b : UInt8} {rest : List UInt8} (h : Utf8.decodeFirst? (b :: rest) = none) :
    read (b :: rest) = stray b :: read rest := by
  rw [read]
  split
  · rename_i hd
    rw [h] at hd
    cases hd
  · rfl

/-- The bytes of a first part of the runes of a source are read as in the source. -/
theorem read_bytes_of_append {source : List UInt8} {taken rest : List Rune} (h : read source = taken ++ rest) :
    read (taken.flatMap bytes) = taken := by
  fun_induction read source generalizing taken with
  | case1 source c more hd ih =>
    cases taken with
    | nil => exact read_nil
    | cons r taken =>
      rw [List.cons_append] at h
      injection h with hr h
      subst hr
      rw [List.flatMap_cons, bytes, read_encode_append, ih h]
  | case2 =>
    rw [(List.append_eq_nil_iff.mp h.symm).1]
    exact read_nil
  | case3 b more hd ih =>
    cases taken with
    | nil => exact read_nil
    | cons r taken =>
      rw [List.cons_append] at h
      injection h with hr h
      subst hr
      -- a character that begins here would begin here in the source
      have hnone : Utf8.decodeFirst? (b :: taken.flatMap bytes) = none := by
        refine Option.eq_none_iff_forall_ne_some.mpr ?_
        rintro ⟨c, left⟩ hsome
        have hmore : more = taken.flatMap bytes ++ rest.flatMap bytes := by
          rw [← List.flatMap_append, ← h, flatMap_bytes_read]
        rw [hmore, ← List.cons_append, Utf8.eq_encode_of_decodeFirst? hsome, List.append_assoc,
          Utf8.decodeFirst?_encode_append] at hd
        cases hd
      rw [List.flatMap_cons, bytes, List.singleton_append, read_of_none hnone, ih h]

/-- Bytes that continue a sequence begin none. -/
theorem read_continuations {tail : List UInt8} (h : ∀ b ∈ tail, Utf8.isContinuation b = true)
    (rest : List UInt8) : read (tail ++ rest) = tail.map stray ++ read rest := by
  induction tail with
  | nil => rfl
  | cons b tail ih =>
    obtain ⟨hb, htail⟩ := List.forall_mem_cons.mp h
    have hlead : Utf8.lead? b = none := by
      have := Utf8.isContinuation_iff.mp hb
      simp only [Utf8.lead?]
      rw [if_neg (by omega), if_pos (by omega)]
    have hnone : Utf8.decodeFirst? (b :: (tail ++ rest)) = none := by
      rw [Utf8.decodeFirst?, hlead]
    rw [List.cons_append, read_of_none hnone, ih htail]
    rfl

end Rune

namespace Utf8

theorem isContinuation_of_mayFollow {first second : UInt8} (h : mayFollow first second = true) :
    isContinuation second = true := by
  rw [isContinuation_iff]
  simp only [mayFollow] at h
  split at h
  all_goals simp only [Bool.and_eq_true, decide_eq_true_eq, isContinuation_iff] at h
  all_goals omega

/-- What belongs to a broken sequence behind its first byte continues it. -/
theorem isContinuation_of_brokenTail {first : UInt8} {rest : List UInt8} :
    ∀ b ∈ rest.take (brokenTail first rest), isContinuation b = true := by
  intro b hb
  cases rest with
  | nil => cases hb
  | cons second rest =>
    rw [brokenTail.eq_def] at hb
    simp only at hb
    split at hb
    · cases hb
    · rename_i hsecond
      have hsecond := isContinuation_of_mayFollow (by simpa using hsecond)
      split at hb
      · obtain rfl : b = second := by simpa using hb
        exact hsecond
      · cases rest with
        | nil =>
          obtain rfl : b = second := by simpa using hb
          exact hsecond
        | cons third rest =>
          simp only at hb
          split at hb
          · rename_i hthird
            obtain rfl | rfl : b = second ∨ b = third := by simpa using hb
            · exact hsecond
            · exact hthird
          · obtain rfl : b = second := by simpa using hb
            exact hsecond

end Utf8

/-- The second characters are the first ones, except that one U+FFFD may stand for several in a row. -/
inductive Shows : List Char → List Char → Prop
  | nil : Shows [] []
  | cons (c : Char) {xs ys : List Char} (h : Shows xs ys) : Shows (c :: xs) (c :: ys)
  | broken (n : Nat) {xs ys : List Char} (h : Shows xs ys) :
    Shows ('\uFFFD' :: (List.replicate n '\uFFFD' ++ xs)) ('\uFFFD' :: ys)

theorem Utf8.shows_lossyChars (source : List UInt8) :
    Shows ((Rune.read source).map Rune.char) (lossyChars source) := by
  fun_induction lossyChars source with
  | case1 source c rest hd ih =>
    rw [eq_encode_of_decodeFirst? hd, Rune.read_encode_append]
    exact ih.cons c
  | case2 =>
    rw [Rune.read_nil]
    exact .nil
  | case3 b rest hd ih =>
    have hrest : Rune.read rest = (rest.take (brokenTail b rest)).map Rune.stray ++
        Rune.read (rest.drop (brokenTail b rest)) := by
      rw [← Rune.read_continuations isContinuation_of_brokenTail, List.take_append_drop]
    have hstray (bs : List UInt8) :
        (bs.map Rune.stray).map Rune.char = List.replicate bs.length '\uFFFD' := by
      rw [List.map_map, List.eq_replicate_iff]
      simp [Rune.char]
    rw [Rune.read_of_none hd, hrest, List.map_cons, List.map_append, hstray]
    exact ih.broken _

namespace Shows

variable {xs ys : List Char}

theorem head? (h : Shows xs ys) : ys.head? = xs.head? := by
  cases h <;> rfl

theorem subset (h : Shows xs ys) : ys ⊆ xs := by
  induction h with
  | nil => exact List.Subset.refl _
  | cons c _ ih => exact List.cons_subset_cons c ih
  | broken n _ ih =>
    exact List.cons_subset_cons _ (List.subset_append_of_subset_right _ ih)

/-- Without stray bytes the characters are the same. -/
theorem eq_of_notMem (h : Shows xs ys) (hx : '\uFFFD' ∉ xs) : ys = xs := by
  induction h with
  | nil => rfl
  | cons c _ ih => rw [ih (List.not_mem_of_not_mem_cons hx)]
  | broken n _ _ => exact absurd List.mem_cons_self hx

end Shows

/-- The text of a first part of the runes of a source. -/
theorem Rune.shows_text {source : List UInt8} {taken rest : List Rune}
    (h : read source = taken ++ rest) : Shows (taken.map char) (text taken).toList := by
  have hshows := Utf8.shows_lossyChars (taken.flatMap bytes)
  rwa [read_bytes_of_append h, ← String.toList_ofList (l := Utf8.lossyChars _)] at hshows

end SchemaScan
