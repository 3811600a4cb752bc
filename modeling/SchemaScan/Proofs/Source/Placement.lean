import SchemaScan.Source.SharedSpace
import Mathlib.Data.List.Basic

/-! # Placement of documents

Documents lie one behind the other, in the order of registration, and the first free position is the
one behind the last end. Every registration asks for that position or a later one, so this stays so
whatever is registered, changed or looked up.
-/
namespace SchemaScan

namespace PositionSpace

/-- Where the documents lie. -/
def extents (space : PositionSpace) : List (Nat × Nat) := space.docs.map Document.extent

structure Orderly (space : PositionSpace) : Prop where
  positive : ∀ e ∈ space.extents, 1 ≤ e.1
  ordered : space.extents.Pairwise fun a b => a.1 + a.2 < b.1
  next : space.next = space.extents.getLast?.elim 1 fun e => e.1 + e.2 + 1
  next_le : space.next ≤ positionLimit
  recent : ∀ index, space.recent = some index → index < space.extents.length

variable {space other : PositionSpace}

theorem getElem?_extents {index : Nat} {doc : Document} (h : space.docs[index]? = some doc) :
    space.extents[index]? = some doc.extent := by
  rw [extents, List.getElem?_map, h]
  rfl

theorem length_extents (space : PositionSpace) : space.extents.length = space.docs.length :=
  List.length_map ..

/-! ## What keeps the order -/

theorem orderly_empty : PositionSpace.empty.Orderly where
  positive := by simp [extents, empty]
  ordered := List.Pairwise.nil
  next := rfl
  next_le := by decide
  recent := by simp [empty]

/-- A change of a document is not seen in what it leaves as it is. -/
theorem map_docs_modify {α : Type} {view : Document → α} {index : Nat} {f : Document → Document}
    (hf : ∀ doc, space.docs[index]? = some doc → view (f doc) = view doc) :
    (space.modify index f).docs.map view = space.docs.map view := by
  apply List.ext_getElem?
  intro i
  simp only [modify, List.getElem?_map, List.getElem?_modify]
  cases hdoc : space.docs[i]? with
  | none => rfl
  | some doc =>
    simp only [Option.map_eq_map, Option.map_some, Option.some.injEq]
    split
    · rename_i hindex
      exact hf doc (hindex ▸ hdoc)
    · rfl

/-- Where the documents lie does not change if none of them is moved. -/
theorem extents_modify {index : Nat} {f : Document → Document}
    (hf : ∀ doc, space.docs[index]? = some doc → (f doc).extent = doc.extent) :
    (space.modify index f).extents = space.extents := map_docs_modify hf

namespace Orderly

theorem modify (h : space.Orderly) {index : Nat} {f : Document → Document}
    (hf : ∀ doc, space.docs[index]? = some doc → (f doc).extent = doc.extent) :
    (space.modify index f).Orderly where
  positive := extents_modify hf ▸ h.positive
  ordered := extents_modify hf ▸ h.ordered
  next := extents_modify hf ▸ h.next
  next_le := h.next_le
  recent := extents_modify hf ▸ h.recent

theorem remember (h : space.Orderly) {index : Nat} (hi : index < space.docs.length) :
    (space.remember index).Orderly where
  positive := h.positive
  ordered := h.ordered
  next := h.next
  next_le := h.next_le
  recent := by
    intro i hr
    cases hr
    exact space.length_extents ▸ hi

/-- Every document ends before the first free position. -/
theorem end_lt_next (h : space.Orderly) {e : Nat × Nat} (he : e ∈ space.extents) :
    e.1 + e.2 < space.next := by
  obtain ⟨-, hordered, hnext, -, -⟩ := h
  rcases List.eq_nil_or_concat space.extents with hnil | ⟨front, last, hconcat⟩
  · rw [hnil] at he
    cases he
  · rw [List.concat_eq_append] at hconcat
    rw [hconcat] at he hordered hnext
    rw [hnext, List.getLast?_concat, Option.elim_some]
    rcases List.mem_append.mp he with he | he
    · have := (List.pairwise_append.mp hordered).2.2 e he last List.mem_cons_self
      omega
    · obtain rfl := List.mem_singleton.mp he
      omega

theorem append (h : space.Orderly) (doc : Document) (hbase : space.next ≤ doc.base)
    (hlimit : doc.base + doc.size + 1 ≤ positionLimit) :
    Orderly ⟨doc.base + doc.size + 1, space.docs ++ [doc], some space.docs.length⟩ := by
  have hextents : extents ⟨doc.base + doc.size + 1, space.docs ++ [doc], some space.docs.length⟩ =
      space.extents ++ [doc.extent] := by
    simp [extents]
  have hnext : 1 ≤ space.next := by
    rw [h.next]
    cases space.extents.getLast? with
    | none => exact Nat.le_refl 1
    | some e => exact Nat.le_add_left ..
  refine ⟨?_, ?_, ?_, hlimit, ?_⟩
  · intro e he
    rw [hextents] at he
    rcases List.mem_append.mp he with he | he
    · exact h.positive e he
    · obtain rfl := List.mem_singleton.mp he
      exact Nat.le_trans hnext hbase
  · rw [hextents, List.pairwise_append]
    refine ⟨h.ordered, List.pairwise_singleton .., ?_⟩
    intro a ha b hb
    obtain rfl := List.mem_singleton.mp hb
    exact Nat.lt_of_lt_of_le (h.end_lt_next ha) hbase
  · rw [hextents, List.getLast?_concat]
    rfl
  · intro index hi
    cases hi
    simp [hextents, length_extents]

/-- Of two documents the one registered first ends before the other starts. -/
theorem end_lt_base (h : space.Orderly) {i j : Nat} {a b : Document} (hi : space.docs[i]? = some a)
    (hj : space.docs[j]? = some b) (hlt : i < j) : a.base + a.size < b.base := by
  obtain ⟨hi, ha⟩ := List.getElem?_eq_some_iff.mp (getElem?_extents hi)
  obtain ⟨hj, hb⟩ := List.getElem?_eq_some_iff.mp (getElem?_extents hj)
  have := List.pairwise_iff_getElem.mp h.ordered i j hi hj hlt
  rwa [ha, hb] at this

theorem eq_of_covers (h : space.Orderly) {i j pos : Nat} {a b : Document}
    (hi : space.docs[i]? = some a) (hj : space.docs[j]? = some b) (ha : a.covers pos = true)
    (hb : b.covers pos = true) : i = j := by
  rw [Document.covers_eq_true_iff] at ha hb
  rcases Nat.lt_trichotomy i j with hlt | heq | hlt
  · have := h.end_lt_base hi hj hlt
    omega
  · exact heq
  · have := h.end_lt_base hj hi hlt
    omega

theorem pos_of_covers (h : space.Orderly) {doc : Document} {pos : Nat} (hd : doc ∈ space.docs)
    (hc : doc.covers pos = true) : 0 < pos := by
  have hpositive := h.positive _ (List.mem_map_of_mem hd)
  exact Nat.lt_of_lt_of_le hpositive (Document.covers_eq_true_iff.mp hc).1

end Orderly

/-! ## Registration -/

section Registration

variable {name : String} {base? : Option Nat} {size : Nat}

/-- A registration succeeds if its document fits between the first free position and the limit. -/
theorem register_eq_ok_iff : space.register name base? size = .ok other ↔
    space.next ≤ base?.getD space.next ∧ base?.getD space.next + size + 1 ≤ positionLimit ∧
      other = ⟨base?.getD space.next + size + 1,
        space.docs ++ [{ name, base := base?.getD space.next, size }], some space.docs.length⟩ := by
  simp only [register]
  split
  · simp only [reduceCtorEq, false_iff]
    omega
  · split
    · simp only [reduceCtorEq, false_iff]
      omega
    · simp only [Except.ok.injEq]
      constructor
      · rintro rfl
        exact ⟨by omega, by omega, rfl⟩
      · rintro ⟨-, -, rfl⟩
        rfl

theorem register_eq_baseTaken_iff :
    space.register name base? size = .error (.baseTaken name (base?.getD space.next) space.next) ↔
      base?.getD space.next < space.next := by
  simp only [register]
  split
  · simpa
  · split <;> simpa using by omega

theorem register_eq_noRoom_iff :
    space.register name base? size = .error (.noRoom name size) ↔
      space.next ≤ base?.getD space.next ∧ positionLimit < base?.getD space.next + size + 1 := by
  simp only [register]
  split
  · simp only [Except.error.injEq, reduceCtorEq, false_iff]
    omega
  · split
    · simp only [true_iff]
      omega
    · simp only [reduceCtorEq, false_iff]
      omega

theorem Orderly.register (h : space.Orderly) (hr : space.register name base? size = .ok other) :
    other.Orderly := by
  obtain ⟨hbase, hlimit, rfl⟩ := register_eq_ok_iff.mp hr
  exact h.append { name, base := base?.getD space.next, size } hbase hlimit

end Registration

end PositionSpace

end SchemaScan
