import SchemaScan.Proofs.Source.SharedSpaces

/-! # Registrations

After any run the documents lie apart, every position of theirs is a number of 64 bits, and whether the
next registration succeeds can be read off the first free position.
-/
namespace SchemaScan

open PositionSpace

namespace PositionSpace

/-- The documents lie apart from one another and from position 0, in the order of registration, and all
their positions are numbers of 64 bits. -/
structure Placed (space : PositionSpace) : Prop where
  first : ∀ doc, space.docs.head? = some doc → 1 ≤ doc.base
  consecutive : ∀ (i : Nat) (a b : Document), space.docs[i]? = some a → space.docs[i + 1]? = some b →
    a.base + a.size < b.base
  apart : ∀ (i j : Nat) (a b : Document) (pos : Nat), space.docs[i]? = some a → space.docs[j]? = some b →
    a.covers pos = true → b.covers pos = true → i = j
  zero : ∀ doc ∈ space.docs, doc.covers 0 = false
  next : space.next = space.docs.getLast?.elim 1 fun doc => doc.base + doc.size + 1
  next_le : space.next ≤ positionLimit
  end_le : ∀ doc ∈ space.docs, doc.base + doc.size ≤ positionLimit
  position_le : ∀ doc ∈ space.docs, ∀ offset pos, doc.positionOf offset = .ok pos →
    pos = doc.base + offset ∧ pos ≤ positionLimit

theorem Orderly.placed {space : PositionSpace} (h : space.Orderly) : space.Placed := by
  have hend : ∀ doc ∈ space.docs, doc.base + doc.size ≤ positionLimit := fun doc hd =>
    Nat.le_trans (Nat.le_of_lt (h.end_lt_next (List.mem_map_of_mem hd))) h.next_le
  refine ⟨?_, ?_, ?_, ?_, ?_, h.next_le, hend, ?_⟩
  · intro doc hd
    exact h.positive _ (List.mem_map_of_mem (List.mem_of_head? hd))
  · intro i a b ha hb
    exact h.end_lt_base ha hb (Nat.lt_succ_self i)
  · intro i j a b pos ha hb hca hcb
    exact h.eq_of_covers ha hb hca hcb
  · intro doc hd
    rw [← Bool.not_eq_true]
    exact fun hc => Nat.lt_irrefl 0 (h.pos_of_covers hd hc)
  · rw [h.next, extents, List.getLast?_map]
    cases space.docs.getLast? <;> rfl
  · intro doc hd offset pos hp
    rw [Document.positionOf] at hp
    split at hp
    · cases hp
      have := hend doc hd
      exact ⟨rfl, by omega⟩
    · cases hp

end PositionSpace

namespace SharedSpace

/-- What a call of `register` does: it fails for one of two reasons and then changes nothing, or it adds
one document behind all others. -/
structure Registers (s : SharedSpace) (name : String) (base? : Option Nat) (size : Nat) : Prop where
  baseTaken : s.space.register name base? size =
      .error (.baseTaken name (base?.getD s.space.next) s.space.next) ↔
    base?.getD s.space.next < s.space.next
  noRoom : s.space.register name base? size = .error (.noRoom name size) ↔
    s.space.next ≤ base?.getD s.space.next ∧
      positionLimit < base?.getD s.space.next + size + 1
  fits : (∃ space, s.space.register name base? size = .ok space) ↔
    s.space.next ≤ base?.getD s.space.next ∧
      base?.getD s.space.next + size + 1 ≤ positionLimit
  failed : ∀ e, s.space.register name base? size = .error e → s.move (.register name base? size) = s
  added : ∀ space, s.space.register name base? size = .ok space →
    s.move (.register name base? size) = { s with space } ∧
    space.docs = s.space.docs ++ [{ name, base := base?.getD s.space.next, size }] ∧
    ∀ pos doc, s.space.document? pos = some doc → space.document? pos = some doc

theorem registers (s : SharedSpace) (h : s.space.Orderly) (name : String) (base? : Option Nat)
    (size : Nat) : s.Registers name base? size := by
  refine ⟨register_eq_baseTaken_iff, register_eq_noRoom_iff, ?_, ?_, ?_⟩
  · constructor
    · rintro ⟨space, hr⟩
      obtain ⟨hbase, hlimit, -⟩ := register_eq_ok_iff.mp hr
      exact ⟨hbase, hlimit⟩
    · rintro ⟨hbase, hlimit⟩
      exact ⟨_, register_eq_ok_iff.mpr ⟨hbase, hlimit, rfl⟩⟩
  · intro e he
    rw [move, he]
  · intro space hr
    have horderly := h.register hr
    refine ⟨by rw [move, hr], ?_⟩
    obtain ⟨-, -, rfl⟩ := register_eq_ok_iff.mp hr
    refine ⟨rfl, ?_⟩
    intro pos doc hd
    obtain ⟨index, hi, hd⟩ := Option.bind_eq_some_iff.mp hd
    obtain ⟨other, ho, hc⟩ := covers_iff.mp (h.locate_eq_some_iff.mp hi)
    rw [hd] at ho
    cases ho
    refine @Orderly.document?_eq_of_covers _ index pos horderly doc ?_ hc
    exact (List.getElem?_append_left (List.getElem?_eq_some_iff.mp hd).1).trans hd

/-- Whatever has been registered and looked up, the documents lie apart, and the next registration
fails exactly if its base is taken or there is no room. -/
theorem run_placed (moves : List Move) :
    (empty.run moves).space.Placed ∧
      ∀ name base? size, (empty.run moves).Registers name base? size := by
  have h := (consistent_run consistent_empty moves).orderly
  exact ⟨h.placed, registers _ h⟩

example : (empty.run [.register "a" none 3, .look 4, .register "b" (some 4) 2,
    .register "c" (some positionLimit) 0, .advance 0, .register "d" (some 9) 0]).space.extents =
    [(1, 3), (9, 0)] := by
  decide

end SharedSpace

end SchemaScan
