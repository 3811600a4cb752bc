import SchemaScan.Proofs.Source.SharedSpaces

/-! # Lookups

A lookup that has answered was right, however it was interleaved with others and with registrations. In
between, a lookup that nothing disturbs finds the document of every position that has one, whatever
document the others have left behind as the remembered one.
-/
namespace SchemaScan

open PositionSpace

/-- The document with the index covers the position, and it is the only one. -/
def PositionSpace.Owns (space : PositionSpace) (index pos : Nat) : Prop :=
  ∃ doc, space.docs[index]? = some doc ∧ doc.covers pos = true ∧
    ∀ (i : Nat) (other : Document), space.docs[i]? = some other → other.covers pos = true → i = index

theorem PositionSpace.Orderly.owns {space : PositionSpace} (h : space.Orderly) {index pos : Nat}
    (hc : space.Covers index pos) : space.Owns index pos := by
  obtain ⟨doc, hd, hcovers⟩ := covers_iff.mp hc
  exact ⟨doc, hd, hcovers, fun i other ho hoc => h.eq_of_covers ho hd hoc hcovers⟩

namespace Lookup

/-- An answer names the only document that covers the position. Without one there is no such document
among those that were registered when the lookup searched. -/
structure Right (l : Lookup) (space : PositionSpace) : Prop where
  owner : ∀ index, l.stage = .answered (some index) → space.Owns index l.pos
  nobody : l.stage = .answered none → l.pos = 0 ∨
    ∃ count, l.searched = some count ∧ count ≤ space.docs.length ∧
      ∀ doc ∈ space.docs.take count, doc.covers l.pos = false

theorem Knows.right {l : Lookup} {space : PositionSpace} (h : l.Knows space) (ho : space.Orderly) :
    l.Right space := by
  obtain ⟨pos, stage, searched⟩ := l
  constructor
  · rintro index ⟨⟩
    exact ho.owns h
  · rintro ⟨⟩
    rcases h with hzero | ⟨count, hs, hle, hn⟩
    · exact .inl hzero
    · refine .inr ⟨count, hs, hle, ?_⟩
      intro doc hd
      obtain ⟨index, hi⟩ := List.mem_iff_getElem?.mp hd
      rw [List.getElem?_take] at hi
      split at hi
      · rename_i hlt
        rw [← Bool.not_eq_true]
        exact fun hc => hn index hlt (covers_iff.mpr ⟨doc, hi, hc⟩)
      · cases hi

/-- A lookup has answered after its third part, whatever the space has become in the meantime. -/
theorem answered_of_three (pos : Nat) (first second third : PositionSpace) :
    ∃ answer, (((((start pos).advance first).1.advance second).1.advance third).1).stage =
      .answered answer := by
  have hbegun : (∃ answer, ((start pos).advance first).1.stage = .answered answer) ∨
      ((start pos).advance first).1.stage = .missed := by
    by_cases hzero : pos = 0
    · exact .inl ⟨none, by simp [start, advance, hzero]⟩
    · cases hr : first.remembered? pos with
      | some index => exact .inl ⟨some index, by simp [start, advance, hzero, hr]⟩
      | none => exact .inr (by simp [start, advance, hzero, hr])
  generalize ((start pos).advance first).1 = l at hbegun
  rcases hbegun with ⟨answer, ha⟩ | hm
  · exact ⟨answer, by simp [advance, ha]⟩
  · cases hs : second.search? l.pos with
    | some index => exact ⟨some index, by simp [advance, hm, hs]⟩
    | none => exact ⟨none, by simp [advance, hm, hs]⟩

/-- Three parts of a lookup, with nothing in between. -/
def alone (pos : Nat) (space : PositionSpace) : Lookup × PositionSpace :=
  let (l, space) := (start pos).advance space
  let (l, space) := l.advance space
  l.advance space

theorem alone_eq_locate (pos : Nat) (space : PositionSpace) :
    (alone pos space).1.stage = .answered (space.locate pos).1 ∧
      (alone pos space).2 = (space.locate pos).2 := by
  by_cases hzero : pos = 0
  · simp [alone, start, advance, locate, hzero]
  · cases hr : space.remembered? pos with
    | some index => simp [alone, start, advance, locate, hzero, hr]
    | none =>
      cases hs : space.search? pos with
      | some index => simp [alone, start, advance, locate, hzero, hr, hs]
      | none => simp [alone, start, advance, locate, hzero, hr, hs]

end Lookup

namespace PositionSpace

/-- Positions and documents of the space belong together. -/
structure Resolves (space : PositionSpace) : Prop where
  remembered : ∀ index, space.recent = some index → index < space.docs.length
  found : ∀ (index : Nat) (doc : Document) (offset : Nat), space.docs[index]? = some doc →
    offset ≤ doc.size → ∃ pos, doc.positionOf offset = .ok pos ∧
      (space.locate pos).1 = some index ∧ space.document? pos = some doc ∧
      doc.offsetOf pos = .ok offset
  covered : ∀ doc ∈ space.docs, ∀ pos adjusted, doc.covers pos = true →
    doc.location pos adjusted = .ok (space.location pos adjusted)
  uncovered : ∀ pos adjusted, (∀ doc ∈ space.docs, doc.covers pos = false) →
    space.location pos adjusted = Location.unknown

theorem Orderly.resolves {space : PositionSpace} (h : space.Orderly) : space.Resolves := by
  refine ⟨?_, ?_, ?_, ?_⟩
  · intro index hr
    rw [← length_extents]
    exact h.recent index hr
  · intro index doc offset hd hle
    have hc : doc.covers (doc.base + offset) = true := by
      rw [Document.covers_eq_true_iff]
      omega
    refine ⟨doc.base + offset, ?_, ?_, h.document?_eq_of_covers hd hc, ?_⟩
    · rw [Document.positionOf, if_pos hle]
    · exact h.locate_eq_some_iff.mpr (covers_iff.mpr ⟨doc, hd, hc⟩)
    · rw [Document.offsetOf, if_pos hc, Nat.add_sub_cancel_left]
  · intro doc hd pos adjusted hc
    obtain ⟨index, hd⟩ := List.mem_iff_getElem?.mp hd
    exact h.location_of_covers hd hc adjusted
  · intro pos adjusted hn
    rw [location, h.document?_eq_none]
    intro index hcovers
    obtain ⟨doc, hd, hc⟩ := covers_iff.mp hcovers
    rw [hn doc (List.mem_of_getElem? hd)] at hc
    cases hc

end PositionSpace

namespace SharedSpace

/-- However lookups, registrations and changes are interleaved, the answers of the lookups are right, and
a lookup that is left alone resolves every position as its document does. -/
theorem run_resolves (moves : List Move) :
    (∀ l ∈ (empty.run moves).lookups, l.Right (empty.run moves).space) ∧
      (empty.run moves).space.Resolves ∧
      (∀ pos, (Lookup.alone pos (empty.run moves).space).1.stage =
          .answered ((empty.run moves).space.locate pos).1 ∧
        (Lookup.alone pos (empty.run moves).space).2 = ((empty.run moves).space.locate pos).2) ∧
      ∀ pos first second third, ∃ answer,
        ((((Lookup.start pos).advance first).1.advance second).1.advance third).1.stage =
          .answered answer := by
  have h := consistent_run consistent_empty moves
  refine ⟨fun l hl => (h.lookups l hl).right h.orderly, h.orderly.resolves, ?_, ?_⟩
  · exact fun pos => Lookup.alone_eq_locate pos _
  · exact Lookup.answered_of_three

-- A lookup that has found the first document remembers it after the second has been registered and found.
example : (empty.run [.register "a" none 3, .register "b" none 2, .look 2, .look 6, .advance 0,
    .advance 0, .advance 1, .advance 0, .advance 1, .register "c" (some 20) 0, .look 19, .advance 2,
    .advance 2]).lookups.map (·.stage) = [.answered (some 0), .answered (some 1), .answered none] := by
  decide

end SharedSpace

end SchemaScan
