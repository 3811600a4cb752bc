import SchemaScan.Proofs.Schema.Series
import SchemaScan.Proofs.Schema.Tokens

/-! # Reading values

The induction is on the value: the elements of a list and the fields of an object are smaller values,
and each of them is followed by a comma or a blank.
-/
namespace SchemaScan.Schema

open Piece

/-! ## What a value starts with -/

/-- A value may start with the character. -/
def startsValue (x : Char) : Bool :=
  x = '$' || x = '"' || x = '[' || x = '{' || x = '-' || x.isDigit || isNameStart x

theorem front_value (v : Value) :
    ∃ x, startsValue x = true ∧ ∀ next, front v.pieces next = some x := by
  cases v with
  | «variable» n =>
    refine ⟨'$', rfl, fun next => ?_⟩
    rw [Value.pieces, front_mark]
    rfl
  | string s =>
    refine ⟨'"', rfl, fun next => ?_⟩
    rw [Value.pieces, front_string]
  | number n =>
    obtain ⟨x, hx, hfront⟩ := front_number n
    refine ⟨x, ?_, fun next => ?_⟩
    · rcases hx with rfl | hx
      · rfl
      · simp [startsValue, hx]
    · rw [Value.pieces, hfront]
  | name n =>
    refine ⟨n.first, by simp [startsValue, n.first_isNameStart], fun next => ?_⟩
    rw [Value.pieces, front_name]
  | list vs =>
    refine ⟨'[', rfl, fun next => ?_⟩
    rw [Value.pieces]
    rfl
  | object fs =>
    refine ⟨'{', rfl, fun next => ?_⟩
    rw [Value.pieces]
    rfl

theorem starts_of_startsValue {x : Char} (h : startsValue x = true) :
    Series.values.starts x = true := by
  simp only [startsValue, Bool.or_eq_true, decide_eq_true_eq] at h
  rcases h with (((((rfl | rfl) | rfl) | rfl) | rfl) | hdigit) | hname
  · decide
  · decide
  · decide
  · decide
  · decide
  · exact Series.starts_of_isNameContinue _ (by simp [isNameContinue, hdigit])
  · exact Series.starts_of_isNameContinue _ (isNameContinue_of_isNameStart hname)

theorem isBlank_of_starts {s : Series} {x : Char} (h : s.starts x = true) : isBlank x = false := by
  simp only [Series.starts, Bool.and_eq_true, Bool.not_eq_true', isSpace_eq,
    Bool.or_eq_false_iff] at h
  exact h.1.1.1

/-- No blank stands in front of a value. -/
theorem front_value_isBlank (v : Value) (next : Option Char) :
    (front v.pieces next).any isBlank = false := by
  obtain ⟨x, hx, hfront⟩ := front_value v
  rw [hfront]
  exact isBlank_of_starts (starts_of_startsValue hx)

theorem isDigit_of_isNameStart {x : Char} (h : isNameStart x = true) : x.isDigit = false := by
  cases hd : x.isDigit with
  | false => rfl
  | true =>
    obtain ⟨-, hle⟩ := Char.isDigit_iff_toNat.mp hd
    rw [show '9'.toNat = 57 from rfl] at hle
    simp only [isNameStart, Bool.or_eq_true, Bool.and_eq_true, decide_eq_true_eq] at h
    rcases h with (h | rfl) | h
    · have hletter : (x.isUpper || x.isLower) = true := h
      have hge : 65 ≤ x.toNat := by
        rcases (Bool.or_eq_true _ _).mp hletter with h | h
        · exact UInt32.le_iff_toNat_le.mp (of_decide_eq_true h).1
        · have hlow := (Bool.and_eq_true _ _).mp h
          have : 97 ≤ x.toNat := UInt32.le_iff_toNat_le.mp (of_decide_eq_true hlow.1)
          omega
      omega
    · exact absurd hd (by decide)
    · omega

theorem choose_number {x : Char} (h : x = '-' ∨ x.isDigit = true) :
    Construct.choose .value (some x) = .expand [.number] := by
  have hx : (x = '-' || x.isDigit) = true := by simpa using h
  simp only [Construct.choose]
  split
  · rename_i hc
    cases hc
    exact absurd hx (by decide)
  · rename_i hc
    cases hc
    exact absurd hx (by decide)
  · rename_i hc
    cases hc
    exact absurd hx (by decide)
  · rename_i hc
    cases hc
    exact absurd hx (by decide)
  · rename_i c _ _ _ _ hc
    cases hc
    rw [if_pos hx]
  · rename_i hc
    cases hc

theorem choose_name {x : Char} (h : isNameStart x = true) :
    Construct.choose .value (some x) = .expand [.name (.plain .value)] := by
  have hx : (x = '-' || x.isDigit) = false := by
    simp [isDigit_of_isNameStart h]
    rintro rfl
    exact absurd h (by decide)
  simp only [Construct.choose]
  split
  · rename_i hc
    cases hc
    exact absurd h (by decide)
  · rename_i hc
    cases hc
    exact absurd h (by decide)
  · rename_i hc
    cases hc
    exact absurd h (by decide)
  · rename_i hc
    cases hc
    exact absurd h (by decide)
  · rename_i c _ _ _ _ hc
    cases hc
    rw [hx, if_neg Bool.false_ne_true, if_pos h]
  · rename_i hc
    cases hc

namespace Reads

variable {mode : Mode} {next : Option Char}

/-- A name, a colon and a value. -/
theorem field (use : NameUse) {place : MarkPlace} (hplace : place.mark = .colon) (f : Name × Value)
    (hv : Reads mode [.construct .value] f.2.pieces [] next) :
    Reads mode [.name (.plain use), .blanks, .construct (.required place), .blanks,
      .construct .value] (field f) [] next := by
  have hcolon : Construct.choose (.required place) (some Mark.colon.char) = .take .colon [] := by
    simp [Construct.choose, hplace]
  refine (name use f.1 rfl).step ?_
  refine (no_blanks rfl).pass ?_
  refine (take hcolon).step ?_
  exact (blank (front_value_isBlank f.2 next)).step hv

theorem fits_value {v : Value} (hv : Reads mode [.construct .value] v.pieces [] next) :
    Fits mode .values v.pieces next := by
  obtain ⟨x, hx, hfront⟩ := front_value v
  exact ⟨⟨x, hfront, starts_of_startsValue hx⟩, hv⟩

theorem fits_name (s : Series) (n : Name) {ps : List Piece}
    (h : Reads mode (Goal.element s) (n.piece :: ps) [] next) : Fits mode s (n.piece :: ps) next :=
  ⟨⟨n.first, fun next => front_name n ps next,
    s.starts_of_isNameContinue (isNameContinue_of_isNameStart n.first_isNameStart)⟩, h⟩

theorem value (v : Value) : ∀ {next : Option Char}, endsLiteral next = true →
    Reads mode [.construct .value] v.pieces [] next := by
  intro next hnext
  match v with
  | .variable n =>
    rw [Value.pieces]
    exact (take rfl).step (name _ n (endsName_of_endsLiteral hnext))
  | .string s =>
    rw [Value.pieces]
    refine (expand ?_).instead (string .value s (any_of_endsLiteral hnext (by decide)))
    rw [front_string]
    rfl
  | .number n =>
    obtain ⟨x, hx, hfront⟩ := front_number n
    rw [Value.pieces]
    refine (expand ?_).instead (number n hnext)
    rw [hfront]
    exact choose_number hx
  | .name n =>
    rw [Value.pieces]
    refine (expand ?_).instead (name .value n (endsName_of_endsLiteral hnext))
    rw [front_name]
    exact choose_name n.first_isNameStart
  | .list vs =>
    rw [Value.pieces]
    refine (take rfl).step ?_
    apply commas_blank rfl rfl rfl
    intro p hp
    obtain ⟨v, hv, rfl⟩ := List.mem_map.mp hp
    exact ⟨fits_value (value v rfl), fits_value (value v rfl)⟩
  | .object fs =>
    rw [Value.pieces]
    refine (take rfl).step ?_
    apply commas_blank rfl rfl rfl
    intro p hp
    obtain ⟨f, hf, rfl⟩ := List.mem_map.mp hp
    exact ⟨fits_name _ f.1 (field _ rfl f (value f.2 rfl)),
      fits_name _ f.1 (field _ rfl f (value f.2 rfl))⟩
termination_by sizeOf v
decreasing_by
  · exact Value.sizeOf_lt_list hv
  · exact Value.sizeOf_lt_list hv
  · exact Value.sizeOf_lt_object hf
  · exact Value.sizeOf_lt_object hf

end Reads

end SchemaScan.Schema
