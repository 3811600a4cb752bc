import SchemaScan.Proofs.Scan.Histories

/-! # Steps back

Every routine keeps the history of the head orderly. Most of them leave the head as they please. A series leaves it
so that it may step back over what has ended the series, whether that is a closing mark, a line break behind the
last element or behind a comment, or the end of the source.
-/
namespace SchemaScan

noncomputable section

namespace Scanner

open Grip

/-! ## Comments and tokens -/

instance keeps_skip (p : Char → Bool) : Steady (skip p) := by
  unfold skip
  infer_instance

instance keeps_pending : Steady pending := by
  unfold pending
  infer_instance

instance keeps_failWith {α : Type} (message : String) {s t : Stance} : Keeps s t (failWith message : Scanner α) :=
  ⟨Orders.get.bind fun _ => .throw _⟩

instance keeps_fail {α : Type} (f : Fault) {s t : Stance} : Keeps s t (fail f : Scanner α) := by
  unfold fail
  infer_instance

instance keeps_failQuoting {α : Type} (f : String → Fault) {t : Stance} :
    Keeps .loose t (failQuoting f : Scanner α) := by
  unfold failQuoting
  infer_instance

instance keeps_ignoreComment : Steady ignoreComment := by
  unfold ignoreComment
  infer_instance

instance keeps_comment : Steady comment := by
  unfold comment
  infer_instance

instance keeps_quotes : Steady quotes := by
  unfold quotes
  infer_instance

instance keeps_stringBodyWithin (block : Bool) (rounds : Nat) : Steady (stringBodyWithin block rounds) := by
  induction rounds with
  | zero => exact keeps_giveUp
  | succ rounds ih =>
    refine .step fun r => ?_
    split <;> infer_instance

instance keeps_stringBody (block : Bool) : Steady (stringBody block) := by
  unfold stringBody
  infer_instance

instance keeps_string : Steady string := by
  refine .step fun _ => .step fun _ => .step fun _ => .step fun count => ?_
  split <;> infer_instance

instance keeps_fraction : Steady fraction := by
  unfold fraction
  infer_instance

instance keeps_exponent : Steady exponent := by
  unfold exponent
  infer_instance

instance keeps_number : Steady number := by
  unfold number
  infer_instance

instance keeps_atTerminator : Steady atTerminator := by
  refine .step fun r => ?_
  split <;> infer_instance

instance keeps_identifierWithin (rounds : Nat) : Steady (identifierWithin rounds) := by
  induction rounds with
  | zero => exact keeps_giveUp
  | succ rounds ih =>
    refine .step fun _ => .step fun _ => .step fun _ => ?_
    infer_instance

instance keeps_identifier : Steady identifier := by
  unfold identifier
  infer_instance

instance keeps_literal (role : StringRole) : Steady (literal role) := by
  unfold literal
  infer_instance

instance keeps_name (use : NameUse) : Steady (name use) := by
  refine .step fun kind => ?_
  split <;> infer_instance

instance keeps_optional (m : Mark) : Steady (optional m) := by
  unfold optional
  infer_instance

instance keeps_description : Steady description := by
  unfold description
  infer_instance

/-! ## Elements

The routines of elements keep the history orderly if the routine that takes the series inside them does, and leaves
the head ready to step back. -/

section Elements

variable {inner : Series → Option Char → Scanner Unit} [∀ s fixed, Settles (inner s fixed)]

instance keeps_enclosed (opening closing : Mark) (s : Series) (fixed : Option Char) :
    Steady (enclosed inner opening closing s fixed) := by
  unfold enclosed
  infer_instance

/-- What ends directives is left to what comes next. -/
instance keeps_directives (site : DirectiveSite) : Steady (directives inner site) := by
  unfold directives
  infer_instance

instance keeps_value : Steady (value inner) := by
  refine .step fun r => ?_
  split <;> infer_instance

instance keeps_signature : Steady (signature inner) := by
  unfold signature
  repeat refine .step fun _ => ?_
  infer_instance

instance keeps_memberType : Steady (memberType inner) := by
  unfold memberType
  infer_instance

instance keeps_memberRestWithin (rounds : Nat) : Steady (memberRestWithin inner rounds) := by
  induction rounds with
  | zero => exact keeps_giveUp
  | succ rounds ih =>
    refine .settle fun r => ?_
    split <;> infer_instance

instance keeps_memberRest : Steady (memberRest inner) := by
  unfold memberRest
  infer_instance

instance keeps_member : Steady (member inner) := by
  unfold member
  infer_instance

instance keeps_argument : Steady (argument inner) := by
  refine .step fun _ => .step fun _ => .step fun _ => .step fun colon => ?_
  infer_instance

instance keeps_directive : Steady (directive inner) := by
  unfold directive
  infer_instance

instance keeps_assigned (place : MarkPlace) : Steady (assigned inner place) := by
  unfold assigned
  infer_instance

instance keeps_directiveArgument : Steady (directiveArgument inner) := by
  unfold directiveArgument
  infer_instance

instance keeps_objectField : Steady (objectField inner) := by
  unfold objectField
  infer_instance

instance keeps_element (s : Series) : Steady (element inner s) := by
  cases s <;> unfold element <;> infer_instance

end Elements

/-! ## Series -/

/-- Where there is a character that satisfies `p`, or none, the head may step back over it. -/
def Orders.acceptFrom {q : Option Char → Prop} {p : Char → Bool} (hq : ∀ r, q r → r = none ∨ r.any p = true) :
    Orders (before q) (accept p) fun _ => Stance.ripe.grip := by
  refine (Orders.next q).bind fun r => .ite (fun _ => ?_) fun hany => ?_
  · exact (Orders.pure true).imp (fun h => ripe.imp h fun _ _ => trivial) fun _ h => h
  · refine ((Orders.backup fun r' => r' = r ∧ q r').bind fun _ => .pure false).imp (fun h => h) fun hh h => ?_
    refine (h.ripe ?_ hh).imp fun _ _ => trivial
    rintro r' ⟨rfl, hr⟩
    exact (hq r' hr).resolve_right hany

/-- A comment is taken up to the end of its line, or of the source. -/
def Orders.trailingComment :
    Orders Stance.loose.grip trailingComment fun _ => before fun r => r.any (!isLineEnd ·) = false := by
  refine (Orders.acceptRun _).bind fun _ => ?_
  refine (Orders.read.bind fun input => .ite (fun _ => .emit _ .comment) fun _ => .ignore _).imp ?_ fun _ h => h
  exact fun h => h.1

instance keeps_trailingComment : Steady trailingComment :=
  ⟨Orders.trailingComment.imp (fun h => h) fun _ _ => trivial⟩

/-- A series that ends with its line ends behind a comment, at the end of the line or of the source. -/
abbrev settles_trailingComment {s : Series} (hs : s.endsAtLine = true) : Settles (do
    trailingComment
    let _ ← accept s.isEnd) := by
  refine ⟨Orders.trailingComment.bind fun _ => (Orders.acceptFrom ?_).bind fun _ => .pure ()⟩
  rintro (_ | r) hr
  · exact .inl rfl
  · exact .inr (Series.isEnd_of_lineEnd hs (by simpa using hr))

section Round

variable {rounds : Nat} [∀ s fixed, Settles (seriesWithin rounds s fixed)]
variable [∀ s fixed, Settles (separatorWithin rounds s fixed)] (s : Series) (fixed : Option Char)

abbrev settles_seriesWithin_succ : Settles (seriesWithin (rounds + 1) s fixed) := by
  refine .step fun _ => .settle fun r => .ite (fun _ => inferInstance) fun _ => ?_
  refine .step fun _ => .step fun sign => .ite (fun _ => .ite ?_ fun _ => ?_) fun _ => ?_
  · exact settles_trailingComment
  · infer_instance
  · infer_instance

abbrev settles_separatorWithin_succ : Settles (separatorWithin (rounds + 1) s fixed) := by
  refine .settle fun r => ?_
  split
  · infer_instance
  · refine .ite (fun _ => inferInstance) fun _ => .ite (fun _ => .ite (fun _ => ?_) fun _ => ?_) fun _ => ?_
    · -- behind blanks the end is seen before it is taken, and where the source ends there is nothing to be taken
      refine .step fun _ => ⟨Orders.peek.bind fun after => ?_⟩
      refine .ite (fun _ => ?_) fun _ => .ite (fun hend => ?_) fun _ => ?_
      · exact (inferInstance : Settles _).anyhow _
      · refine (Orders.pure ()).imp (fun h => h) fun hh h => ?_
        exact (h.ripe (fun r' hr => hr.trans hend.1) hh).imp fun _ _ => trivial
      · exact (inferInstance : Settles (seriesWithin rounds s fixed)).anyhow _
    · infer_instance
    · infer_instance

end Round

/-- What ends a series has been taken last, unless the source has ended. -/
def settles_within : (rounds : Nat) → (∀ s fixed, Settles (seriesWithin rounds s fixed)) ×
    ∀ s fixed, Settles (separatorWithin rounds s fixed)
  | 0 => (fun _ _ => keeps_giveUp, fun _ _ => keeps_giveUp)
  | rounds + 1 =>
    let (_series, _separator) := settles_within rounds
    (settles_seriesWithin_succ, settles_separatorWithin_succ)

instance settles_series (s : Series) (fixed : Option Char) : Settles (series s fixed) := by
  have hwithin (rounds : Nat) : Settles (seriesWithin rounds s fixed) := (settles_within rounds).1 s fixed
  unfold series
  infer_instance

/-! ## Phases -/

instance keeps_document : Steady document := by
  refine .settle fun r => ?_
  split <;> infer_instance

instance keeps_definitionWord (k : Keyword) : Steady (definitionWord k) := by
  unfold definitionWord
  infer_instance

instance keeps_definitionName (k : Keyword) : Steady (definitionName k) := by
  unfold definitionName
  infer_instance

instance keeps_definitionPhase (k : Keyword) : Steady (definitionPhase k) := by
  cases k <;> unfold definitionPhase <;> infer_instance

instance keeps_definition : Steady definition := by
  refine .step fun kind => ?_
  split <;> infer_instance

instance keeps_imports : Steady imports := by
  refine .step fun _ => .step fun r => ?_
  split <;> infer_instance

instance keeps_scalar : Steady scalar := by
  unfold scalar
  infer_instance

instance keeps_objectBody : Steady objectBody := by
  refine .step fun r => ?_
  split <;> infer_instance

instance keeps_object : Steady object := by
  refine .step fun _ => .step fun r => .ite (fun _ => .step fun kind => ?_) fun _ => inferInstance
  refine .ite (fun _ => .step fun _ => .settle fun _ => .step fun _ => ?_) fun _ => inferInstance
  infer_instance

instance keeps_members : Steady members := by
  unfold members
  infer_instance

instance keeps_union : Steady union := by
  refine .step fun _ => .step fun _ => .step fun atEnd => ?_
  infer_instance

instance keeps_declaredArguments : Steady declaredArguments := by
  unfold declaredArguments
  infer_instance

instance keeps_directiveDeclaration : Steady directiveDeclaration := by
  refine .step fun _ => .step fun sign => .ite (fun _ => ?_) fun _ => inferInstance
  repeat refine .step fun _ => ?_
  infer_instance

instance keeps_phase (p : Phase) : Steady (phase p) := by
  cases p <;> unfold phase <;> infer_instance

instance keeps_phasesWithin (rounds : Nat) (current : Phase) : Steady (phasesWithin rounds current) := by
  induction rounds generalizing current with
  | zero => exact keeps_giveUp
  | succ rounds ih =>
    refine .step fun following => ?_
    split <;> infer_instance

instance keeps_phases (current : Phase) : Steady (phases current) := by
  unfold phases
  infer_instance

instance keeps_dropByteOrderMark : Steady dropByteOrderMark := by
  unfold dropByteOrderMark
  infer_instance

instance keeps_start : Steady start := by
  unfold start
  infer_instance

end Scanner

end

end SchemaScan
