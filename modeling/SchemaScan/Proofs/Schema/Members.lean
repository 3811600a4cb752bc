import SchemaScan.Proofs.Schema.Directives

/-! # Reading types, arguments and members

The non-null marks and the brackets of a type are optional one by one; which of them are left out is
decided by the next character.
-/
namespace SchemaScan.Schema

open Piece

namespace Reads

variable {mode : Mode} {next : Option Char} {goals : List Goal} {site : DirectiveSite}

/-! ## Types -/

/-- What stands behind a type, without the blank in front of it. -/
theorem typeParts_joined (default : Option Value) (ds : List Directive)
    (hend : next.all (Series.directives site).isEnd = true) (hnext : endsLiteral next = true) :
    Reads mode [.construct .defaultValue, .blanks, .construct (.directives site)]
      (joined (typeParts default ds)) [] next := by
  have hds : Reads mode [.construct (.directives site)] (joined (ds.map Directive.pieces)) [] next :=
    directives_last ds hend hnext
  have hfront : (front (joined (ds.map Directive.pieces)) next).any isBlank = false := by
    rcases front_directives ds next with hf | hf
    · rw [hf]
      exact isBlank_of_isEnd hend
    · rw [hf]
      rfl
  cases default with
  | none =>
    have hnone : Construct.choose .defaultValue (front (joined (ds.map Directive.pieces)) next) =
        .expand [] := by
      apply if_neg
      rcases front_directives ds next with hf | hf
      · rw [hf]
        exact ne_of_endsLiteral hnext rfl
      · rw [hf]
        decide
    exact (expand hnone).pass ((no_blanks hfront).pass hds)
  | some v =>
    have hbehind := blanks_spaced hds hfront
    change Reads mode _ (mark .equals :: Piece.blank :: (v.pieces ++ spaced (ds.map Directive.pieces)))
      [] next
    refine (take rfl).step ((Reads.blank ?_).step ?_)
    · rw [front_append]
      exact front_value_isBlank v _
    exact (value v (endsLiteral_front_spaced _ hnext)).parts hbehind

theorem front_typeParts (default : Option Value) (ds : List Directive) (next : Option Char) :
    front (joined (typeParts default ds)) next = next ∨
      front (joined (typeParts default ds)) next = some '@' ∨
        front (joined (typeParts default ds)) next = some '=' := by
  cases default with
  | none => exact (front_directives ds next).imp_right .inl
  | some v => exact .inr (.inr rfl)

theorem bangs_optional (isNonNull : Bool) (h : next ≠ some '!') :
    Reads mode [.construct (.optional .bang)] (bangs isNonNull) [] next := by
  cases isNonNull with
  | true => exact take rfl
  | false => exact no_mark h

/-- A type and what stands behind it, with the colon already taken. -/
theorem typed_behind_colon (type : TypeRef) (default : Option Value) (ds : List Directive)
    (hend : next.all (Series.directives site).isEnd = true) (hnext : endsLiteral next = true) :
    Reads mode (Goal.signature ++ [.blanks, .construct (.directives site)])
      (Piece.blank :: (type.pieces ++ spaced (typeParts default ds))) [] next := by
  have hparts : Reads mode [.construct .defaultValue, .blanks, .construct (.directives site)]
      (joined (typeParts default ds)) [] next := typeParts_joined default ds hend hnext
  have hfront (x : Char) (hx : endsLiteral (some x) = false) (hat : x ≠ '@') (hequals : x ≠ '=') :
      front (joined (typeParts default ds)) next ≠ some x := by
    rcases front_typeParts default ds next with hf | hf | hf
    · rw [hf]
      exact ne_of_endsLiteral hnext hx
    · rw [hf]
      simpa using hat.symm
    · rw [hf]
      simpa using hequals.symm
  have hblank : (front (joined (typeParts default ds)) next).any isBlank = false := by
    rcases front_typeParts default ds next with hf | hf | hf
    · rw [hf]
      exact isBlank_of_isEnd hend
    · rw [hf]
      rfl
    · rw [hf]
      rfl
  have hspaced : endsLiteral (front (spaced (typeParts default ds)) next) = true :=
    endsLiteral_front_spaced _ hnext
  have hbang : front (spaced (typeParts default ds)) next ≠ some '!' := ne_of_endsLiteral hspaced rfl
  cases type with
  | named n isNonNull =>
    have hbehind : Reads mode [.blanks, .construct (.optional .bracketClose),
        .construct (.optional .bang), .blanks, .construct .defaultValue, .blanks,
        .construct (.directives site)] (spaced (typeParts default ds)) [] next := by
      refine blanks_spaced ?_ hblank
      refine (no_mark (hfront ']' rfl (by decide) (by decide))).pass ?_
      refine (no_mark (hfront '!' rfl (by decide) (by decide))).pass ?_
      exact (no_blanks hblank).pass hparts
    have hname : endsName (front (bangs isNonNull ++ spaced (typeParts default ds)) next) = true := by
      cases isNonNull with
      | true => rfl
      | false => exact endsName_of_endsLiteral hspaced
    refine (Reads.blank n.isBlank_first).step ?_
    refine (no_mark (n.first_ne rfl)).pass ((name _ n hname).step ?_)
    exact (bangs_optional isNonNull hbang).parts hbehind
  | list n itemIsNonNull isNonNull =>
    have hbehind : Reads mode [.blanks, .construct .defaultValue, .blanks,
        .construct (.directives site)] (spaced (typeParts default ds)) [] next :=
      blanks_spaced hparts hblank
    have hname (ps : List Piece) (next : Option Char) :
        endsName (front (bangs itemIsNonNull ++ (mark .bracketClose :: ps)) next) = true := by
      cases itemIsNonNull <;> rfl
    have hpieces : Piece.blank :: ((TypeRef.list n itemIsNonNull isNonNull).pieces ++
        spaced (typeParts default ds)) = Piece.blank :: mark .bracketOpen :: n.piece ::
          (bangs itemIsNonNull ++ (mark .bracketClose ::
            (bangs isNonNull ++ spaced (typeParts default ds)))) := by
      simp [TypeRef.pieces]
    rw [hpieces]
    refine (Reads.blank rfl).step ((take rfl).step ((name _ n (hname _ _)).step ?_))
    refine (bangs_optional itemIsNonNull (by simp [Mark.char])).parts ?_
    refine (no_blanks rfl).pass ((take rfl).step ?_)
    exact (bangs_optional isNonNull hbang).parts hbehind

/-! ## Arguments -/

/-- A string, if there is one, in front of a name. -/
theorem described (d : Option StringToken) {c : Char} (hc : isSpace c = true) (n : Name)
    {ps : List Piece} (h : Reads mode goals (n.piece :: ps) [] next) :
    Reads mode (.construct .description :: goals) (described d (gap [c]) ++ n.piece :: ps) [] next := by
  have hspace : (some n.first).any isSpace = false := by
    have hstarts := Series.values.starts_of_isNameContinue
      (isNameContinue_of_isNameStart n.first_isNameStart)
    simp only [Series.starts, Bool.and_eq_true, Bool.not_eq_true'] at hstarts
    exact hstarts.1.1
  cases d with
  | none =>
    have hnone : Reads mode [.construct .description] [] [] (front (n.piece :: ps) next) := by
      apply expand
      exact if_neg (n.first_ne rfl)
    change Reads mode _ (n.piece :: ps) [] next
    exact hnone.pass h
  | some s =>
    have hsome : Construct.choose .description
        (front (Schema.described (some s) (gap [c]) ++ n.piece :: ps) next) =
          .expand [.string .description, .space] := by
      rw [front_append]
      exact if_pos (front_string ..)
    have hquote : (some c).any (· = '"') = false := by
      cases hq : (some c).any (· = '"') with
      | false => rfl
      | true =>
        obtain rfl : c = '"' := by simpa using hq
        cases hc
    refine (expand hsome).pass ?_
    change Reads mode _ (s.piece .description :: gap [c] :: n.piece :: ps) [] next
    have hall : [c].all isSpace = true := by simpa using hc
    exact (string .description s hquote).step ((space hall hspace).step h)

/-- A part that a name begins, with a string in front of it or not. -/
theorem fits_described {s : Series} (hs : s.starts '"' = true) (d : Option StringToken) {c : Char}
    (n : Name) {ps : List Piece}
    (h : Reads mode (Goal.element s) (Schema.described d (gap [c]) ++ n.piece :: ps) [] next) :
    Fits mode s (Schema.described d (gap [c]) ++ n.piece :: ps) next := by
  cases d with
  | none => exact fits_name s n h
  | some string =>
    refine ⟨⟨'"', fun next => ?_, hs⟩, h⟩
    rw [front_append]
    exact front_string ..

theorem fits_argument (a : Argument)
    (hend : next.all (Series.directives .argument).isEnd = true) (hnext : endsLiteral next = true) :
    Fits mode .arguments a.pieces next := by
  have hpieces : a.pieces = Schema.described a.description Piece.blank ++
      a.name.piece :: mark .colon ::
        (Piece.blank :: (a.type.pieces ++ spaced (typeParts a.default a.directives))) := by
    simp [Argument.pieces, typed]
  rw [hpieces]
  apply fits_described rfl
  apply described a.description rfl
  refine (name _ a.name rfl).step ((no_blanks rfl).pass ((take rfl).step ?_))
  exact typed_behind_colon a.type a.default a.directives hend hnext

theorem declared (arguments : List Argument) :
    Reads mode [.elements .arguments none]
      (Piece.commas (arguments.map Argument.pieces) ++ [mark .parenClose]) [] next := by
  apply Reads.commas rfl rfl (.inl rfl)
  intro p hp
  obtain ⟨a, ha, rfl⟩ := List.mem_map.mp hp
  exact ⟨fits_argument a rfl rfl, fits_argument a rfl rfl⟩

/-! ## Members -/

theorem member_type (t : MemberType) (ds : List Directive)
    (hend : next.all (Series.directives .member).isEnd = true) (hnext : endsLiteral next = true) :
    Reads mode [.blanks, .construct .memberRest]
      (declaredArguments t.arguments ++ typed t.type t.default ds) [] next := by
  obtain ⟨arguments, type, default⟩ := t
  have htyped : Reads mode (Goal.signature ++ [.blanks, .construct (.directives .member)])
      (Piece.blank :: (type.pieces ++ spaced (typeParts default ds))) [] next :=
    typed_behind_colon type default ds hend hnext
  cases arguments with
  | none => exact (no_blanks rfl).pass ((take rfl).step htyped)
  | some arguments =>
    refine (no_blanks rfl).pass ((take rfl).step ((declared arguments).parts ?_))
    exact (no_blanks rfl).pass ((take rfl).step htyped)

theorem fits_member (m : Member) : Fits mode .members m.pieces (some '\n') := by
  obtain ⟨description, n, type, ds⟩ := m
  cases type with
  | none =>
    have hpieces : Member.pieces ⟨description, n, none, ds⟩ =
        Schema.described description lineBreak ++ n.piece :: spaced (ds.map Directive.pieces) := by
      simp [Member.pieces]
    rw [hpieces]
    apply fits_described rfl
    apply described description rfl
    refine (name _ n (endsName_of_endsLiteral (endsLiteral_front_spaced _ rfl))).step ?_
    cases ds with
    | nil => exact (no_blanks rfl).pass (expand rfl)
    | cons d ds =>
      have hds : Reads mode [.elements (.directives .member) none]
          (joined ((d :: ds).map Directive.pieces ++ [])) [] (some '\n') :=
        directive_elements d ds nil rfl fun _ => rfl
      rw [List.append_nil] at hds
      exact (Reads.blank rfl).step ((expand rfl).instead hds)
  | some t =>
    have hpieces : Member.pieces ⟨description, n, some t, ds⟩ =
        Schema.described description lineBreak ++
          n.piece :: (declaredArguments t.arguments ++ typed t.type t.default ds) := by
      simp [Member.pieces]
    rw [hpieces]
    apply fits_described rfl
    apply described description rfl
    refine (name _ n ?_).step (member_type t ds rfl rfl)
    cases t.arguments <;> rfl

theorem members (ms : List Member) :
    Reads mode [.elements .members none]
      (lineBreak :: (Piece.lines (ms.map Member.pieces) ++ [mark .braceClose])) [] next := by
  apply lines rfl rfl (by decide) (.inl rfl)
  intro p hp
  obtain ⟨m, hm, rfl⟩ := List.mem_map.mp hp
  exact fits_member m

end Reads

end SchemaScan.Schema
