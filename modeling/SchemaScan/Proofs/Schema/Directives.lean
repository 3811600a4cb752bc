import SchemaScan.Proofs.Schema.Values

/-! # Reading parts with blanks between them

What may stand behind a name comes in parts with a blank in front of each. The first blank is taken
before it is decided what follows, so the goals behind it read the parts without that blank.
-/
namespace SchemaScan.Schema

open Piece

/-- Parts with a blank between each two of them. -/
def joined : List (List Piece) → List Piece
  | [] => []
  | part :: parts => part ++ spaced parts

theorem spaced_append (a b : List (List Piece)) : spaced (a ++ b) = spaced a ++ spaced b :=
  List.flatMap_append

/-- A blank, if there is a part. -/
def trail (parts : List (List Piece)) : List Piece := if parts = [] then [] else [Piece.blank]

theorem spaced_eq (parts : List (List Piece)) : spaced parts = trail parts ++ joined parts := by
  cases parts <;> rfl

theorem front_spaced (parts : List (List Piece)) (next : Option Char) :
    front (spaced parts) next = next ∨ front (spaced parts) next = some ' ' := by
  cases parts with
  | nil => exact .inl rfl
  | cons part parts => exact .inr rfl

theorem endsLiteral_front_spaced (parts : List (List Piece)) {next : Option Char}
    (h : endsLiteral next = true) : endsLiteral (front (spaced parts) next) = true := by
  rcases front_spaced parts next with hf | hf
  · rw [hf]
    exact h
  · rw [hf]
    rfl

namespace Reads

variable {mode : Mode} {next : Option Char} {goals : List Goal}

theorem blanks_spaced {parts : List (List Piece)} (h : Reads mode goals (joined parts) [] next)
    (hfront : (front (joined parts) next).any isBlank = false) :
    Reads mode (.blanks :: goals) (spaced parts) [] next := by
  cases parts with
  | nil => exact (no_blanks hfront).pass h
  | cons part parts => exact (Reads.blank hfront).step h

/-- A mark that may be left out, and is. -/
theorem no_mark {m : Mark} (h : next ≠ some m.char) :
    Reads mode [.construct (.optional m)] [] [] next :=
  expand (if_neg h)

theorem ne_of_endsLiteral {c : Char} (h : endsLiteral next = true)
    (hc : endsLiteral (some c) = false) : next ≠ some c := by
  rintro rfl
  rw [h] at hc
  cases hc

/-! ## Directives -/

theorem directive (site : DirectiveSite) (d : Directive) (hnext : endsLiteral next = true) :
    Reads mode (Goal.element (.directives site)) d.pieces [] next := by
  obtain ⟨n, arguments⟩ := d
  cases arguments with
  | none =>
    refine (take rfl).step ((name _ n (endsName_of_endsLiteral hnext)).step ?_)
    exact expand (if_neg (ne_of_endsLiteral hnext rfl))
  | some fs =>
    refine (take rfl).step ((name _ n rfl).step ((take rfl).step ?_))
    apply commas rfl rfl (.inr rfl)
    intro p hp
    obtain ⟨f, hf, rfl⟩ := List.mem_map.mp hp
    exact ⟨fits_name _ f.1 (field _ rfl f (value f.2 rfl)),
      fits_name _ f.1 (field _ rfl f (value f.2 rfl))⟩

theorem fits_directive (site : DirectiveSite) (d : Directive) (hnext : endsLiteral next = true) :
    Fits mode (.directives site) d.pieces next := by
  refine ⟨⟨'@', fun _ => rfl, ?_⟩, directive site d hnext⟩
  cases site <;> rfl

/-- The characters that end directives besides a blank. -/
theorem ne_at_of_isEnd {site : DirectiveSite}
    (h : next.all (Series.directives site).isEnd = true) : next ≠ some '@' := by
  rintro rfl
  revert h
  cases site <;> decide

theorem isBlank_of_isEnd {s : Series} (h : next.all s.isEnd = true) : next.any isBlank = false := by
  cases next with
  | none => rfl
  | some x => exact (Series.notEnd_of_isEnd h).1

/-- Directives up to where other parts start. -/
theorem directive_elements {site : DirectiveSite} (d : Directive) (ds : List Directive)
    {more : List (List Piece)} (h : Reads mode goals (joined more) [] next)
    (hend : (front (joined more) next).all (Series.directives site).isEnd = true)
    (hnext : more = [] → endsLiteral next = true) :
    Reads mode (.elements (.directives site) none :: goals)
      (joined ((d :: ds).map Directive.pieces ++ more)) [] next := by
  have hparts : joined ((d :: ds).map Directive.pieces ++ more) =
      (d.pieces ++ (spaced (ds.map Directive.pieces) ++ trail more)) ++ joined more := by
    simp only [joined, List.map_cons, List.cons_append, spaced_append, spaced_eq more,
      List.append_assoc]
  have hfinish : Reads mode [.separator (.directives site) none] (trail more) []
      (front (joined more) next) := by
    cases more with
    | nil => exact separator_leave (by cases site <;> rfl) rfl hend
    | cons part more => exact separator_leave_blank rfl hend
  have hbehind : endsLiteral (front (trail more) (front (joined more) next)) = true := by
    cases more with
    | nil => exact hnext rfl
    | cons part more => rfl
  rw [hparts]
  refine (blankSeparated rfl hfinish ?_).parts h
  intro p hp
  obtain ⟨d, hd, rfl⟩ := List.mem_map.mp (by simpa using hp : p ∈ (d :: ds).map Directive.pieces)
  exact ⟨fits_directive site d rfl, fits_directive site d hbehind⟩

/-- Directives, if there are any, up to where other parts start. -/
theorem directives_joined {site : DirectiveSite} (ds : List Directive)
    {more : List (List Piece)} (h : Reads mode goals (joined more) [] next)
    (hend : (front (joined more) next).all (Series.directives site).isEnd = true)
    (hnext : more = [] → endsLiteral next = true) :
    Reads mode (.construct (.directives site) :: goals)
      (joined (ds.map Directive.pieces ++ more)) [] next := by
  cases ds with
  | nil =>
    have hnone : Construct.choose (.directives site) (front (joined more) next) = .expand [] :=
      if_neg (ne_at_of_isEnd hend)
    exact (expand hnone).pass h
  | cons d ds => exact (expand rfl).pass (directive_elements d ds h hend hnext)

/-- Directives with nothing behind them. -/
theorem directives_last {site : DirectiveSite} (ds : List Directive)
    (hend : next.all (Series.directives site).isEnd = true) (hnext : endsLiteral next = true) :
    Reads mode [.construct (.directives site)] (joined (ds.map Directive.pieces)) [] next := by
  have h : Reads mode [.construct (.directives site)] (joined (ds.map Directive.pieces ++ [])) []
      next := directives_joined ds nil hend fun _ => hnext
  rwa [List.append_nil] at h

theorem front_directives (ds : List Directive) (next : Option Char) :
    front (joined (ds.map Directive.pieces)) next = next ∨
      front (joined (ds.map Directive.pieces)) next = some '@' := by
  cases ds with
  | nil => exact .inl rfl
  | cons d ds => exact .inr rfl

end Reads

end SchemaScan.Schema
