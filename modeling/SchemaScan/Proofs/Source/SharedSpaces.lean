import SchemaScan.Proofs.Source.Searches

/-! # Runs of shared spaces

Whoever moves, the documents of a shared space stay in order, and what a lookup has found stays true:
documents are only added, and none is ever moved. The remembered document may have been found by a lookup
that has long been overtaken, but it is one of the documents.
-/
namespace SchemaScan

open PositionSpace

/-! ## What lookups know -/

namespace Lookup

/-- What a lookup knows of the space. No document covers a position if none of those covers it that were
there during the search. -/
def Knows (l : Lookup) (space : PositionSpace) : Prop :=
  match l.stage with
  | .begun => True
  | .missed => True
  | .found index => space.Covers index l.pos
  | .answered (some index) => space.Covers index l.pos
  | .answered none => l.pos = 0 ∨
      ∃ count, l.searched = some count ∧ count ≤ space.docs.length ∧
        ∀ index < count, ¬ space.Covers index l.pos

variable {l : Lookup} {space other : PositionSpace}

theorem Knows.grows (h : l.Knows space) (hg : space.extents <+: other.extents) :
    l.Knows other := by
  obtain ⟨pos, stage, searched⟩ := l
  cases stage with
  | begun => trivial
  | missed => trivial
  | found index => exact Covers.grows h hg
  | answered answer =>
    cases answer with
    | some index => exact Covers.grows h hg
    | none =>
      rcases h with hzero | ⟨count, hs, hle, hn⟩
      · exact .inl hzero
      · refine .inr ⟨count, hs, ?_, ?_⟩
        · rw [← length_extents] at hle ⊢
          exact Nat.le_trans hle hg.length_le
        · intro index hlt
          rw [covers_iff_of_grows hg (Nat.lt_of_lt_of_le hlt hle)]
          exact hn index hlt

/-- A part of a lookup leaves the documents as they are and the space in order, and what the lookup
then knows is true. -/
theorem knows_advance (h : l.Knows space) (ho : space.Orderly) :
    (l.advance space).1.Knows space ∧ (l.advance space).2.Orderly ∧
      (l.advance space).2.extents = space.extents := by
  obtain ⟨pos, stage, searched⟩ := l
  cases stage with
  | begun =>
    by_cases hzero : pos = 0
    · simp only [advance, hzero, ↓reduceIte]
      exact ⟨.inl rfl, ho, trivial⟩
    · simp only [advance, hzero, ↓reduceIte]
      cases hr : space.remembered? pos with
      | some index => exact ⟨covers_of_remembered? hr, ho, rfl⟩
      | none => exact ⟨trivial, ho, rfl⟩
  | missed =>
    simp only [advance]
    cases hs : space.search? pos with
    | some index => exact ⟨(search?_eq_some_iff ho).mp hs, ho, rfl⟩
    | none =>
      refine ⟨.inr ⟨_, rfl, Nat.le_refl _, ?_⟩, ho, rfl⟩
      intro index _
      exact (search?_eq_none_iff ho).mp hs index
  | found index => exact ⟨h, ho.remember (Covers.lt_length h), rfl⟩
  | answered answer => exact ⟨h, ho, rfl⟩

end Lookup

/-! ## Moves and runs -/

namespace SharedSpace

structure Consistent (s : SharedSpace) : Prop where
  orderly : s.space.Orderly
  lookups : ∀ l ∈ s.lookups, l.Knows s.space

theorem consistent_empty : SharedSpace.empty.Consistent :=
  ⟨orderly_empty, fun _ hl => absurd hl List.not_mem_nil⟩

theorem Consistent.move {s : SharedSpace} (h : s.Consistent) (m : Move) : (s.move m).Consistent := by
  cases m with
  | register name base? size =>
    simp only [SharedSpace.move]
    split
    · rename_i space hr
      refine ⟨h.orderly.register hr, fun l hl => (h.lookups l hl).grows ?_⟩
      obtain ⟨-, -, rfl⟩ := register_eq_ok_iff.mp hr
      simp [extents]
    · exact h
  | change index c =>
    have hf := fun doc (_ : s.space.docs[index]? = some doc) => doc.extent_change c
    refine ⟨h.orderly.modify hf, fun l hl => (h.lookups l hl).grows ?_⟩
    exact grows_of_eq (extents_modify hf)
  | look pos =>
    refine ⟨h.orderly, ?_⟩
    intro l hl
    rcases List.mem_append.mp hl with hl | hl
    · exact h.lookups l hl
    · obtain rfl := List.mem_singleton.mp hl
      trivial
  | advance lookup =>
    simp only [SharedSpace.move]
    split
    · rename_i l hl
      obtain ⟨hknows, horderly, hextents⟩ :=
        Lookup.knows_advance (h.lookups l (List.mem_of_getElem? hl)) h.orderly
      refine ⟨horderly, ?_⟩
      intro k hk
      have hgrows := grows_of_eq hextents
      rcases List.mem_or_eq_of_mem_set hk with hk | rfl
      · exact (h.lookups k hk).grows hgrows
      · exact hknows.grows hgrows
    · exact h

theorem consistent_run {s : SharedSpace} (h : s.Consistent) (moves : List Move) :
    (s.run moves).Consistent := by
  induction moves generalizing s with
  | nil => exact h
  | cons m moves ih => exact ih (h.move m)

end SharedSpace

end SchemaScan
