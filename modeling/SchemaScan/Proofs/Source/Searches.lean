import SchemaScan.Proofs.Source.Placement

/-! # Searches for documents

In an orderly space the remembered document is only a short cut: whatever is remembered, a search finds
the document that covers the position, and no other covers it.
-/
namespace SchemaScan

namespace PositionSpace

/-- The document with the index covers the position. -/
def Covers (space : PositionSpace) (index pos : Nat) : Prop :=
  ∃ e, space.extents[index]? = some e ∧ e.1 ≤ pos ∧ pos ≤ e.1 + e.2

variable {space other : PositionSpace} {index pos : Nat}

theorem covers_iff : space.Covers index pos ↔
    ∃ doc, space.docs[index]? = some doc ∧ doc.covers pos = true := by
  simp only [Covers, extents, List.getElem?_map, Option.map_eq_some_iff, Document.covers_eq_true_iff]
  constructor
  · rintro ⟨_, ⟨doc, hd, rfl⟩, hc⟩
    exact ⟨doc, hd, hc⟩
  · rintro ⟨doc, hd, hc⟩
    exact ⟨doc.extent, ⟨doc, hd, rfl⟩, hc⟩

theorem grows_of_eq (h : other.extents = space.extents) : space.extents <+: other.extents :=
  h ▸ List.prefix_rfl

/-- Documents that are registered later change nothing for the earlier ones. -/
theorem covers_iff_of_grows (hg : space.extents <+: other.extents)
    (hi : index < space.docs.length) : other.Covers index pos ↔ space.Covers index pos := by
  obtain ⟨later, hlater⟩ := hg
  rw [Covers, Covers, ← hlater, List.getElem?_append_left (space.length_extents ▸ hi)]

theorem Covers.lt_length (h : space.Covers index pos) : index < space.docs.length := by
  obtain ⟨doc, hd, -⟩ := covers_iff.mp h
  exact (List.getElem?_eq_some_iff.mp hd).1

theorem Covers.grows (h : space.Covers index pos) (hg : space.extents <+: other.extents) :
    other.Covers index pos := (covers_iff_of_grows hg h.lt_length).mpr h

/-! ## Parts of a search -/

theorem covering?_eq_some_iff {i : Nat} :
    space.covering? pos index = some i ↔ i = index ∧ space.Covers index pos := by
  rw [covers_iff, covering?]
  cases space.docs[index]? with
  | none => simp
  | some doc =>
    by_cases hc : doc.covers pos = true
    · simp [hc, eq_comm (a := index)]
    · simp [hc]

theorem covers_of_remembered? (h : space.remembered? pos = some index) :
    space.Covers index pos := by
  obtain ⟨i, -, hi⟩ := Option.bind_eq_some_iff.mp h
  obtain ⟨rfl, hc⟩ := covering?_eq_some_iff.mp hi
  exact hc

/-- The documents that start at or before a covered position are those up to its document. -/
theorem Orderly.length_takeWhile (h : space.Orderly) {doc : Document}
    (hd : space.docs[index]? = some doc) (hc : doc.covers pos = true) :
    (space.docs.takeWhile (·.base ≤ pos)).length = index + 1 := by
  have hlt := (List.getElem?_eq_some_iff.mp hd).1
  rw [Document.covers_eq_true_iff] at hc
  have hfront : ∀ a ∈ space.docs.take (index + 1), decide (a.base ≤ pos) = true := by
    intro a ha
    obtain ⟨i, hi⟩ := List.mem_iff_getElem?.mp ha
    rw [List.getElem?_take] at hi
    split at hi
    · rename_i hle
      rw [decide_eq_true_eq]
      rcases Nat.lt_or_eq_of_le (Nat.le_of_lt_succ hle) with hlt | rfl
      · have := h.end_lt_base hi hd hlt
        omega
      · rw [hd] at hi
        cases hi
        exact hc.1
    · cases hi
  have hback : (space.docs.drop (index + 1)).takeWhile (·.base ≤ pos) = [] := by
    cases hn : space.docs.drop (index + 1) with
    | nil => rfl
    | cons b rest =>
      have hb : space.docs[index + 1]? = some b := by
        rw [← List.head?_drop, hn]
        rfl
      have := h.end_lt_base hd hb (Nat.lt_succ_self index)
      rw [List.takeWhile_cons_of_neg]
      rw [decide_eq_true_eq]
      omega
  rw [← List.take_append_drop (index + 1) space.docs, List.takeWhile_append_of_pos hfront, hback,
    List.append_nil, List.length_take]
  omega

theorem search?_eq_some_iff (h : space.Orderly) :
    space.search? pos = some index ↔ space.Covers index pos := by
  constructor
  · intro hs
    rw [search?] at hs
    split at hs
    · cases hs
    · obtain ⟨rfl, hc⟩ := covering?_eq_some_iff.mp hs
      exact hc
  · intro hc
    obtain ⟨doc, hd, hcovers⟩ := covers_iff.mp hc
    rw [search?, h.length_takeWhile hd hcovers]
    exact covering?_eq_some_iff.mpr ⟨rfl, hc⟩

theorem search?_eq_none_iff (h : space.Orderly) :
    space.search? pos = none ↔ ∀ index, ¬ space.Covers index pos := by
  rw [Option.eq_none_iff_forall_ne_some]
  exact forall_congr' fun index => not_congr (search?_eq_some_iff h)

namespace Orderly

theorem unique (h : space.Orderly) {i : Nat} (hi : space.Covers i pos)
    (hindex : space.Covers index pos) : i = index := by
  obtain ⟨a, ha, hca⟩ := covers_iff.mp hi
  obtain ⟨b, hb, hcb⟩ := covers_iff.mp hindex
  exact h.eq_of_covers ha hb hca hcb

theorem pos_of_Covers (h : space.Orderly) (hc : space.Covers index pos) : 0 < pos := by
  obtain ⟨doc, hd, hc⟩ := covers_iff.mp hc
  exact h.pos_of_covers (List.mem_of_getElem? hd) hc

/-! ## Whole searches -/

theorem locate_eq_some_iff (h : space.Orderly) :
    (space.locate pos).1 = some index ↔ space.Covers index pos := by
  rw [locate]
  split
  · rename_i hzero
    simp only [reduceCtorEq, false_iff]
    intro hc
    exact absurd hzero (Nat.ne_of_gt (h.pos_of_Covers hc))
  · split
    · rename_i i hr
      have hi := covers_of_remembered? hr
      rw [Option.some.injEq]
      constructor
      · rintro rfl
        exact hi
      · exact h.unique hi
    · rw [← search?_eq_some_iff h]
      cases space.search? pos <;> rfl

theorem document?_eq_of_covers (h : space.Orderly) {doc : Document}
    (hd : space.docs[index]? = some doc) (hc : doc.covers pos = true) :
    space.document? pos = some doc := by
  rw [document?, h.locate_eq_some_iff.mpr (covers_iff.mpr ⟨doc, hd, hc⟩)]
  exact hd

theorem document?_eq_none (h : space.Orderly) (hn : ∀ index, ¬ space.Covers index pos) :
    space.document? pos = none := by
  have hl : (space.locate pos).1 = none := by
    rw [Option.eq_none_iff_forall_ne_some]
    exact fun index hi => hn index (h.locate_eq_some_iff.mp hi)
  rw [document?, hl]
  rfl

/-- A search leaves the documents as they are and the space in order. -/
theorem locate (h : space.Orderly) (pos : Nat) :
    (space.locate pos).2.docs = space.docs ∧ (space.locate pos).2.Orderly := by
  rw [PositionSpace.locate]
  split
  · exact ⟨rfl, h⟩
  · split
    · exact ⟨rfl, h⟩
    · split
      · rename_i index hs
        exact ⟨rfl, h.remember ((search?_eq_some_iff h).mp hs).lt_length⟩
      · exact ⟨rfl, h⟩

/-- The location of a position is the one that its document gives. -/
theorem location_of_covers (h : space.Orderly) {doc : Document}
    (hd : space.docs[index]? = some doc) (hc : doc.covers pos = true) (adjusted : Bool) :
    doc.location pos adjusted = .ok (space.location pos adjusted) := by
  have hpos := h.pos_of_covers (List.mem_of_getElem? hd) hc
  rw [Document.location, if_neg (Nat.ne_of_gt hpos), Document.offsetOf, if_pos hc, location,
    h.document?_eq_of_covers hd hc]
  rfl

end Orderly

end PositionSpace

end SchemaScan
