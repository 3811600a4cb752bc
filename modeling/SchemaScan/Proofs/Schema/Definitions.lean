import SchemaScan.Proofs.Schema.Members

/-! # Reading definitions

Every definition starts with its reserved word, which decides the goals for the rest. The induction is
on the definition only because one can extend another.
-/
namespace SchemaScan.Schema

open Piece

namespace Reads

variable {mode : Mode} {next : Option Char} {goals : List Goal} {fixed : Option Char}

/-! ## Names up to the end of a line -/

/-- Names with a sign between each two of them, up to where other parts start. -/
theorem names {s : Series} {sign : Char} {use : NameUse} (hs : s.endsAtLine = true)
    (hblank : s.isBlankSeparated = false) (hsign : s.allows sign = true)
    (helement : Goal.element s = [.name (.plain use)]) (hfixed : fixed = none ∨ fixed = some sign)
    (n : Name) (ns : List Name) {parts : List (List Piece)}
    (hend : (front (joined parts) next).all s.isEnd = true)
    (hnext : parts = [] → endsLiteral next = true) :
    Reads mode [.elements s fixed] (Piece.blank :: (Schema.names sign (n :: ns) ++ trail parts)) []
      (front (joined parts) next) := by
  have hsign' : isBlank sign = false ∧ s.isEnd sign = false := by
    simp only [Series.allows, Bool.and_eq_true, Bool.not_eq_true'] at hsign
    exact ⟨hsign.1.1.2, hsign.2⟩
  have hne : sign ≠ ' ' := by
    rintro rfl
    exact absurd hsign'.1 (by decide)
  have hfixed' {fixed : Option Char} (h : fixed = none ∨ fixed = some sign) :
      fixed ≠ some ' ' ∧ fixed.any s.isEnd = false := by
    rcases h with rfl | rfl
    · exact ⟨by simp, rfl⟩
    · exact ⟨by simpa using hne, hsign'.2⟩
  have hbehind : endsName (front (trail parts) (front (joined parts) next)) = true := by
    cases parts with
    | nil => exact endsName_of_endsLiteral (hnext rfl)
    | cons part parts => rfl
  apply separated [Piece.blank, gap [sign]] (by decide) hfixed (fun _ => rfl)
  · intro fixed x h
    have hgap : Reads mode [.separator s fixed] [Piece.blank] [.separator s fixed] (some sign) :=
      separator_blank hblank (hfixed' h).1 hsign'.1
    exact hgap.trans (separator_char hsign h)
  · intro fixed h
    have hleave : Reads mode [.separator s fixed] [] [] _ := separator_leave hs (hfixed' h).2 hend
    cases parts with
    | nil => exact hleave
    | cons part parts =>
      have hgap : Reads mode [.separator s fixed] [Piece.blank] [.separator s fixed]
          (front [] (front (joined (part :: parts)) next)) :=
        separator_blank hblank (hfixed' h).1 (isBlank_of_isEnd hend)
      exact hgap.trans hleave
  · intro p hp
    obtain ⟨m, hm, rfl⟩ := List.mem_map.mp (by simpa using hp : p ∈ (n :: ns).map ([·.piece]))
    constructor
    · apply fits_name
      rw [helement]
      exact name use m rfl
    · apply fits_name
      rw [helement]
      exact name use m hbehind

theorem names_last {s : Series} {sign : Char} {use : NameUse} (hs : s.endsAtLine = true)
    (hblank : s.isBlankSeparated = false) (hsign : s.allows sign = true)
    (helement : Goal.element s = [.name (.plain use)]) (hfixed : fixed = none ∨ fixed = some sign)
    (n : Name) (ns : List Name) (hend : s.isEnd '\n' = true) :
    Reads mode [.elements s fixed] (Piece.blank :: Schema.names sign (n :: ns)) [] (some '\n') := by
  have h : Reads mode [.elements s fixed] (Piece.blank :: (Schema.names sign (n :: ns) ++ trail [])) []
      (front (joined []) (some '\n')) :=
    names hs hblank hsign helement hfixed n ns hend fun _ => rfl
  simpa [trail, joined] using h

/-! ## Types -/

theorem body (ms : Option (List Member)) :
    Reads mode [.construct .body] (joined (ms.elim [] ([block ·]))) [] (some '\n') := by
  cases ms with
  | none => exact expand rfl
  | some ms =>
    have hpieces : joined ((some ms).elim [] ([block ·])) = mark .braceOpen ::
        (lineBreak :: (Piece.lines (ms.map Member.pieces) ++ [mark .braceClose])) := by
      simp [joined, block, spaced]
    rw [hpieces]
    exact (take rfl).step (members ms)

theorem typeBody_joined (ds : List Directive) (ms : Option (List Member)) :
    Reads mode [.construct (.directives .object), .construct .body] (joined (typeBody ds ms)) []
      (some '\n') := by
  apply directives_joined ds (body ms)
  · cases ms <;> rfl
  · intro _
    rfl

theorem front_typeBody (ds : List Directive) (ms : Option (List Member)) (next : Option Char) :
    front (joined (typeBody ds ms)) next = some '@' ∨
      front (joined (typeBody ds ms)) next = some '{' ∨ typeBody ds ms = [] := by
  cases ds with
  | cons d ds => exact .inl rfl
  | nil =>
    cases ms with
    | some ms => exact .inr (.inl rfl)
    | none => exact .inr (.inr rfl)

theorem typeRest (is : List Name) (ds : List Directive) (ms : Option (List Member)) :
    Reads mode [.construct .typeRest] (joined (implementsParts is ++ typeBody ds ms)) []
      (some '\n') := by
  cases is with
  | nil =>
    have hchoose : Construct.choose .typeRest (front (joined (typeBody ds ms)) (some '\n')) =
        .expand [.construct (.directives .object), .construct .body] := by
      apply if_neg
      rcases front_typeBody ds ms (some '\n') with h | h | h
      · rw [h]
        decide
      · rw [h]
        decide
      · rw [h]
        decide
    exact (expand hchoose).instead (typeBody_joined ds ms)
  | cons n ns =>
    have hparts : joined (implementsParts (n :: ns) ++ typeBody ds ms) = Piece.word .implements ::
        ((Piece.blank :: (Schema.names '&' (n :: ns) ++ trail (typeBody ds ms))) ++
          joined (typeBody ds ms)) := by
      change ([Piece.word .implements, Piece.blank] ++ Schema.names '&' (n :: ns)) ++
        spaced (typeBody ds ms) = _
      rw [spaced_eq]
      simp only [List.cons_append, List.nil_append, List.append_assoc]
    have hafter : Reads mode [.construct .afterInterfaces] (joined (typeBody ds ms)) []
        (some '\n') := by
      rcases front_typeBody ds ms (some '\n') with h | h | h
      · refine (expand ?_).instead (typeBody_joined ds ms)
        rw [h]
        rfl
      · refine (expand ?_).instead (typeBody_joined ds ms)
        rw [h]
        rfl
      · rw [h]
        exact expand rfl
    rw [hparts]
    refine (expand rfl).instead ((Reads.word .implements rfl rfl rfl).step ?_)
    refine (names rfl rfl rfl rfl (.inl rfl) n ns ?_ ?_).parts hafter
    · rcases front_typeBody ds ms (some '\n') with h | h | h
      · rw [h]
        rfl
      · rw [h]
        rfl
      · rw [h]
        rfl
    · intro _
      rfl

theorem front_typeRest (is : List Name) (ds : List Directive) (ms : Option (List Member)) :
    (front (joined (implementsParts is ++ typeBody ds ms)) (some '\n')).any isBlank = false := by
  cases is with
  | nil =>
    change (front (joined (typeBody ds ms)) (some '\n')).any isBlank = false
    rcases front_typeBody ds ms (some '\n') with h | h | h
    · rw [h]
      rfl
    · rw [h]
      rfl
    · rw [h]
      rfl
  | cons n ns => rfl

/-! ## Definitions -/

theorem unionTypes (first : Name) (others : List Name) :
    Reads mode [.construct .unionTypes]
      (joined [[mark .equals, Piece.blank] ++ Schema.names '|' (first :: others)]) []
      (some '\n') := by
  have hpieces : joined [[mark .equals, Piece.blank] ++ Schema.names '|' (first :: others)] =
      mark .equals :: Piece.blank :: Schema.names '|' (first :: others) := by
    simp [joined, spaced]
  rw [hpieces]
  refine (expand rfl).instead ((take rfl).step ?_)
  exact names_last rfl rfl rfl rfl (.inr rfl) first others rfl

/-- The locations of a directive, with the word in front of them. -/
theorem locations (first : Name) (others : List Name) :
    Reads mode [.name .on, .elements .locations (some '|')]
      (joined [[Piece.word .on, Piece.blank] ++ Schema.names '|' (first :: others)]) []
      (some '\n') := by
  have hpieces : joined [[Piece.word .on, Piece.blank] ++ Schema.names '|' (first :: others)] =
      Piece.word .on :: Piece.blank :: Schema.names '|' (first :: others) := by
    simp [joined, spaced]
  rw [hpieces]
  refine (Reads.word .on rfl rfl rfl).step ?_
  exact names_last rfl rfl rfl rfl (.inr rfl) first others rfl

/-- The name of a definition and what stands behind it. -/
theorem definitionName (k : Keyword) (n : Name) {parts : List (List Piece)}
    (h : Reads mode goals (joined parts) [] next)
    (hfront : (front (joined parts) next).any isBlank = false) (hnext : endsLiteral next = true) :
    Reads mode (Goal.definitionName k ++ .blanks :: goals)
      (Piece.blank :: n.piece :: spaced parts) [] next := by
  have hname : Construct.choose (.typeName k) (some n.first) = .expand [] :=
    if_pos (isNameContinue_of_isNameStart n.first_isNameStart)
  have hpass : Reads mode [.construct (.typeName k)] [] []
      (front (n.piece :: spaced parts) next) := expand hname
  refine (Reads.blank n.isBlank_first).step (hpass.pass ?_)
  exact (name _ n (endsName_of_endsLiteral (endsLiteral_front_spaced _ hnext))).step
    (blanks_spaced h hfront)

theorem front_definition (d : Definition) (next : Option Char) :
    (front d.pieces next).any isBlank = false := by
  cases d with
  | type w => cases w <;> rfl
  | _ => rfl

theorem definition (d : Definition) : Reads mode [.name .definition] d.pieces [] (some '\n') := by
  have hline {site : DirectiveSite} : (some '\n').all (Series.directives site).isEnd = true := by
    cases site <;> rfl
  induction d with
  | importPath path =>
    refine (Reads.word .imports rfl rfl rfl).trans ?_
    have hquote : front [path.piece .importPath] (some '\n') = some '"' := front_string ..
    have hchoose : Construct.choose .imports (front [path.piece .importPath] (some '\n')) =
        .expand [.string .importPath] := by
      rw [hquote]
      rfl
    refine (Reads.blank (by rw [hquote]; rfl)).step ?_
    exact (expand hchoose).instead (string .importPath path rfl)
  | importPaths paths =>
    refine (Reads.word .imports rfl rfl rfl).trans ?_
    refine (Reads.blank rfl).step ((take rfl).step ?_)
    apply lines rfl rfl (by decide) (.inl rfl)
    intro p hp
    obtain ⟨path, hpath, rfl⟩ := List.mem_map.mp hp
    exact ⟨⟨'"', fun _ => front_string .., rfl⟩, string .importListPath path rfl⟩
  | scalar n ds =>
    refine (Reads.word .scalar rfl rfl rfl).trans ?_
    refine definitionName .scalar n (directives_last ds hline rfl) ?_ rfl
    rcases front_directives ds (some '\n') with h | h
    · rw [h]
      rfl
    · rw [h]
      rfl
  | schema ds ms =>
    have hends : endsName (front (spaced (typeBody ds (some ms))) (some '\n')) = true :=
      endsName_of_endsLiteral (endsLiteral_front_spaced _ rfl)
    refine (Reads.word .schema hends rfl rfl).trans ?_
    exact blanks_spaced (typeRest [] ds (some ms)) (front_typeRest [] ds (some ms))
  | type w n is ds ms =>
    refine (Reads.word w.keyword rfl (by cases w <;> rfl) (by cases w <;> rfl)).trans ?_
    have hname : Reads mode (Goal.definitionName w.keyword ++ [.blanks, .construct .typeRest])
        (Piece.blank :: n.piece :: spaced (implementsParts is ++ typeBody ds ms)) [] (some '\n') :=
      definitionName w.keyword n (typeRest is ds ms) (front_typeRest is ds ms) rfl
    cases w <;> exact hname
  | union n ds first others =>
    refine (Reads.word .union rfl rfl rfl).trans ?_
    refine definitionName .union n (directives_joined ds (unionTypes first others) rfl ?_) ?_ rfl
    · intro _
      rfl
    · cases ds <;> rfl
  | directive n arguments first others =>
    refine (Reads.word .directive rfl rfl rfl).trans ?_
    cases arguments with
    | none =>
      refine (Reads.blank rfl).step ((take rfl).step ((name _ n rfl).step ?_))
      refine (Reads.blank rfl).step ((expand rfl).pass ?_)
      exact (no_blanks rfl).pass (locations first others)
    | some arguments =>
      refine (Reads.blank rfl).step ((take rfl).step ((name _ n rfl).step ?_))
      refine (no_blanks rfl).pass ((take rfl).step ((declared arguments).parts ?_))
      exact blanks_spaced (locations first others) rfl
  | extend d ih =>
    refine (Reads.word .extend rfl rfl rfl).trans ?_
    exact (Reads.blank (front_definition d _)).step ih

end Reads

end SchemaScan.Schema
