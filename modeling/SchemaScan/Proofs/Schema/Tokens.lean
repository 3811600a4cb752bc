import SchemaScan.Proofs.Schema.Literals

/-! # Goals that read one token

A name may be followed by less than a literal, and a string by anything but a quote.
-/
namespace SchemaScan.Schema

open Piece

/-- A name may end in front of the character, and goes on in no other segment. -/
def endsName (next : Option Char) : Bool :=
  next.all fun c => NameSegment.isTerminator c && c ≠ '.'

theorem endsName_of_endsLiteral {next : Option Char} (h : endsLiteral next = true) :
    endsName next = true := by
  cases next with
  | none => rfl
  | some c =>
    simp only [endsLiteral, Option.all_some, Bool.or_eq_true, decide_eq_true_eq] at h
    rcases h with ((rfl | rfl) | rfl) | rfl <;> rfl

theorem Name.chars_isNameContinue (n : Name) : ∀ x ∈ n.chars, isNameContinue x = true := by
  intro x hx
  rcases List.mem_cons.mp hx with rfl | hx
  · exact isNameContinue_of_isNameStart n.first_isNameStart
  · exact n.others_isNameContinue x hx

theorem Name.first_ne (n : Name) {x : Char} (hx : isNameStart x = false) : some n.first ≠ some x := by
  intro h
  have hstart := n.first_isNameStart
  rw [Option.some.inj h, hx] at hstart
  cases hstart

theorem Name.isBlank_first (n : Name) : (some n.first).any isBlank = false := by
  have hblank : n.first ≠ ' ' := fun h => n.first_ne rfl (congrArg some h)
  have htab : n.first ≠ '\t' := fun h => n.first_ne rfl (congrArg some h)
  simp [isBlank, hblank, htab]

/-! ## What stands in front -/

@[simp] theorem front_name (n : Name) (ps : List Piece) (next : Option Char) :
    front (n.piece :: ps) next = some n.first := rfl

@[simp] theorem front_string (role : StringRole) (s : StringToken) (ps : List Piece)
    (next : Option Char) : front (s.piece role :: ps) next = some '"' := by
  obtain ⟨r, rest, hr, hq⟩ := StringLiteral.head?_of_read s.isString
  simp [front, StringToken.piece, runes, hr, hq]

/-- A number starts with a minus sign or a digit. -/
theorem front_number (n : Number) : ∃ c, (c = '-' ∨ c.isDigit = true) ∧
    ∀ ps next, front (n.piece :: ps) next = some c := by
  cases h : n.isNegative with
  | true =>
    refine ⟨'-', .inl rfl, fun ps next => ?_⟩
    simp [front, Number.piece, runes, Number.chars, h, Rune.char]
  | false =>
    refine ⟨n.first.val, .inr n.first.property, fun ps next => ?_⟩
    simp [front, Number.piece, runes, Number.chars, h, Rune.char]

/-! ## What is read -/

namespace Reads

variable {mode : Mode} {next : Option Char}

theorem name_of_chars {role : NameRole} {cs : List Char} {kind : Kind} (hne : cs ≠ [])
    (hcs : ∀ x ∈ cs, isNameContinue x = true) (hk : kind = Kind.ofName (String.ofList cs))
    (hnext : endsName next = true) (ha : role.accepts kind = true)
    (hr : role.reports kind = true) :
    Reads mode [.name role] [token kind (cs.map .scalar)] (role.following kind) next := by
  apply of_token
  intro c tail hc ht
  have hend : (tail.head?.map Rune.char).all NameSegment.isTerminator = true := by
    rw [ht]
    cases next with
    | none => rfl
    | some x => exact (Bool.and_eq_true_iff.mp hnext).1
  have hread := NameSegment.read_append hne hcs hend
  rw [← hc] at hread
  have hcross := (Cursor.Crosses.advance (c := c) hc.symm).look
  have hperiod : ((c.advance (cs.map .scalar) tail).look.peek = some '.') = False := by
    rw [Cursor.peek_look, Cursor.peek, Cursor.rest_advance, ht]
    rw [eq_iff_iff, iff_false]
    rintro rfl
    exact absurd hnext (by decide)
  refine ⟨_, hcross, ?_⟩
  intro more
  change Step.name role c more = _
  simp only [Step.name, hread, Rune.text_scalars, ← hk, hperiod, ha, hr, Bool.not_true,
    Bool.false_eq_true, ↓reduceIte, Step.token]

theorem name (use : NameUse) (n : Name) (hnext : endsName next = true) :
    Reads mode [.name (.plain use)] [n.piece] [] next := by
  have hread : Reads mode [.name (.plain use)] [n.piece] (NameRole.following (.plain use) _) next :=
    name_of_chars (List.cons_ne_nil n.first n.others) n.chars_isNameContinue rfl hnext rfl rfl
  exact hread

/-- A reserved word, and what it brings with it. -/
theorem word {role : NameRole} (k : Keyword) (hnext : endsName next = true)
    (ha : role.accepts (.keyword k) = true) (hr : role.reports (.keyword k) = true) :
    Reads mode [.name role] [word k] (role.following (.keyword k)) next := by
  have hchars : k.spelling.toList ≠ [] ∧ k.spelling.toList.all isNameContinue = true := by
    cases k <;> decide
  apply name_of_chars hchars.1 (List.all_eq_true.mp hchars.2) ?_ hnext ha hr
  rw [String.ofList_toList, Kind.ofName_spelling]

theorem string (role : StringRole) (s : StringToken) (hnext : next.any (· = '"') = false) :
    Reads mode [.string role] [s.piece role] [] next := by
  apply of_token
  intro c tail hc ht
  rw [← ht] at hnext
  have hread := StringLiteral.read_append s.isString s.isWhole hnext
  rw [← hc] at hread
  have hcross := (Cursor.Crosses.advance (c := c) hc.symm).look
  refine ⟨_, hcross, ?_⟩
  intro more
  change Step.string role c more = _
  simp only [Step.string, hread, ↓reduceIte, Step.token]
  rfl

theorem number (n : Number) (hnext : endsLiteral next = true) :
    Reads mode [.number] [n.piece] [] next := by
  apply of_token
  intro c tail hc ht
  rw [← ht] at hnext
  have hread := n.read_append hnext
  rw [← hc] at hread
  have hcross := (Cursor.Crosses.advance (c := c) hc.symm).look
  refine ⟨_, hcross, ?_⟩
  intro more
  change Step.number c more = _
  simp only [Step.number, hread, Step.token]
  rfl

end Reads

end SchemaScan.Schema
