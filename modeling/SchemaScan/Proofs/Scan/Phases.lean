import SchemaScan.Proofs.Scan.Routines

/-! # The phases of a descent

At the top level a phase ends where the next one begins, with less left to do. Only the phase of a
document may hand over to a definition without a step, so the phases come to an end.
-/
namespace SchemaScan

/-- The goals with which a phase begins. A definition begins in the middle of a step, and the members
of a type begin in front of a brace. -/
def Phase.goals : Phase → List Goal
  | .document | .definition => []
  | .imports => [.blanks, .construct .imports]
  | .scalar => [.blanks, .construct (.directives .scalar)]
  | .object => [.blanks, .construct .typeRest]
  | .members => [.construct .body]
  | .union => [.blanks, .construct (.directives .union), .construct .unionTypes]
  | .directive => [.blanks, .construct (.required .declaredDirective), .name (.plain .declaredDirective),
      .blanks, .construct .declaredArguments, .blanks, .name .on, .elements .locations (some '|')]

/-- Only the phase of a document may hand over to a definition without a step. -/
def Phase.rank : Phase → Nat
  | .document => 1
  | _ => 0

namespace Scanner

variable {input : Input} {expected found : List Item} {n m : Nat} {goals : List Goal} {c : Cursor}
variable {h : Head} {w : Nat}

/-- The head stands where a phase begins. -/
def Enters (input : Input) (expected : List Item) (n : Nat) (p : Phase) (h : Head) : Prop :=
  match p with
  | .definition => ∃ found c w s, h = .at found c w ∧ c.Sits input ∧ Due input expected n found s ∧
      s.step input.mode = Step.name .definition c []
  | .members => ∃ found c w, h = .at found c w ∧ c.Sits input ∧ c.peek = some '{' ∧
      Due input expected n found ⟨c, [.construct .body]⟩
  | p => Ready input expected n p.goals h

/-- The head stands where the phase after `p` begins, or all items have been found. -/
def Follows (input : Input) (expected : List Item) (n : Nat) (p : Phase) (following : Option Phase)
    (h : Head) : Prop :=
  match following with
  | none => h.found = expected
  | some q => ∃ m, 2 * m + q.rank < 2 * n + p.rank ∧ Enters input expected m q h

theorem follows_document {p : Phase} (hm : m < n) (hr : Ready input expected m [] h) :
    Follows input expected n p (some .document) h :=
  ⟨m, by simp only [Phase.rank]; omega, hr⟩

/-- What is taken beyond the end of a series may be dropped. -/
theorem ends_ignore_of_past {p q : Char → Bool} (hp : Past input expected p n goals h)
    (hdrop : Drops input.mode q goals) (hpq : ∀ r, p r = true → q r = true) :
    Ends input expected ignore h fun _ => Ready input expected n goals := by
  obtain ⟨found, c, rfl, hc, he, hd⟩ := hp
  rw [ends_ignore]
  refine ⟨found, c.next, _, rfl, hc.next, hd.drop hdrop ?_⟩
  cases hr : c.peek with
  | none => rfl
  | some r =>
    rw [hr] at he
    exact hpq r he

/-- What a goal drops anyway may be skipped before. -/
theorem ends_skip_drop {p q : Char → Bool} (hr : Ready input expected n goals h)
    (hdrop : Drops input.mode q goals) (hpq : ∀ r, p r = true → q r = true) :
    Ends input expected (skip p) h fun _ => Ready input expected n goals := by
  obtain ⟨found, c, w, rfl, hc, hd⟩ := hr
  rw [ends_skip hc]
  generalize hlen : c.rest.length = len
  induction len generalizing c with
  | zero =>
    have hnone : c.peek.any p = false := by simp [Cursor.peek, List.length_eq_zero_iff.mp hlen]
    rw [Cursor.skip_of_not hnone]
    exact ⟨found, c, _, rfl, hc, hd⟩
  | succ len ih =>
    cases hp : c.peek.any p with
    | true =>
      obtain ⟨r, hr, hpr⟩ := (Option.any_eq_true _ _).mp hp
      rw [← Cursor.skip_next (by rw [hr]; exact hpr)]
      exact ih _ hc.next (hd.drop hdrop (by rw [hr]; exact hpq r hpr)) (by simp [hlen])
    | false =>
      rw [Cursor.skip_of_not hp]
      exact ⟨found, c, _, rfl, hc, hd⟩

/-- A series that ends with its line is the end of a definition. -/
theorem ends_series_document {s : Series} {fixed : Option Char} {p : Phase}
    (hn : n < input.rounds) (hm : m < n) (he : s.ending = .line [])
    (ha : s.Allows fixed) (hr : Ready input expected m [.elements s fixed] h) :
    Ends input expected
      (do
        series s fixed
        ignore
        pure (some .document)) h (Follows input expected n p) := by
  have hspace (r : Char) (hr : s.isEnd r = true) : isSpace r = true := by
    rw [Series.isEnd, he] at hr
    rw [isSpace_eq, Bool.or_eq_true]
    exact .inr (by simpa using hr)
  rw [ends_bind]
  refine (completes_series (Nat.lt_trans hm hn) s fixed [] _ ha hr).imp fun _ _ hr => ?_
  rw [Left, he] at hr
  rw [ends_bind]
  exact (ends_ignore_of_past hr (drops_topLevel _) hspace).imp fun _ _ hr => follows_document hm hr

/-! ## Phases -/

theorem ends_document (he : Enters input expected n .document h) :
    Ends input expected document h (Follows input expected n .document) := by
  obtain ⟨found, c, w, rfl, hc, hd⟩ := he
  have hlook := hc.look
  rw [document, ends_bind, ends_next hc]
  cases hp : c.peek with
  | none =>
    have hx := Cursor.next_crosses_nil (Cursor.rest_eq_nil hp)
    have ho := hx.offset
    rw [Rune.span_nil, Nat.add_zero] at ho
    have hstep : State.step input.mode ⟨c, []⟩ = .halt (.eof c.offset c.line) c.look := by
      simp only [State.step, Step.topLevel, Cursor.peek_look, hp]
      rfl
    have hend := hd.halt hstep
    have hl := hx.line
    rw [Rune.lineFeeds_nil, Nat.add_zero] at hl
    dsimp only
    rw [ends_bind, ends_get, if_neg (by simp [Head.spanning, ho]), ends_bind, ends_emit hc hx, ends_pure,
      Rune.text_nil, hl]
    exact hend
  | some r =>
    dsimp only
    have hstep : State.step input.mode ⟨c, []⟩ =
        if isSpace r then .next [] ⟨c.skip isSpace, []⟩
        else if r = '#' then Step.comment input.mode c.look []
        else if r = '"' then Step.string .value c.look []
        else if isNameStart r then Step.name .definition c.look []
        else Step.fail (.unexpectedCharacter r) c.look c.look.next := by
      simp only [State.step, Step.topLevel, Cursor.peek_look, hp, Cursor.skip_look]
    split
    · rename_i hs
      rw [if_pos hs] at hstep
      obtain ⟨m, hm, hd⟩ := hd.move_lt hstep
      rw [ends_bind, ends_skip hc.next, Cursor.skip_next (by rw [hp]; exact hs), ends_pure]
      exact follows_document hm ⟨found, _, _, rfl, hc.skip _, hd⟩
    · rename_i hs
      rw [if_neg hs] at hstep
      split
      · rename_i hr
        subst hr
        rw [if_pos rfl] at hstep
        rw [ends_bind]
        refine (ends_comment (c := c.look) hd hlook hp hstep (drops_topLevel _)).imp ?_
        rintro _ h' ⟨m, hm, hr⟩
        exact follows_document hm hr
      · rename_i hr
        rw [if_neg hr] at hstep
        split
        · rename_i hq
          rw [if_pos hq] at hstep
          rw [ends_bind, ends_backup hc, ends_bind]
          refine (ends_literal (c := c.look) hlook hd hstep).imp ?_
          rintro _ h' ⟨m, hm, hr⟩
          exact follows_document hm hr
        · rename_i hq
          rw [if_neg hq] at hstep
          split
          · rename_i hn
            rw [if_pos hn] at hstep
            rw [ends_bind, ends_backup hc, ends_pure]
            exact ⟨n, Nat.lt_succ_self _, found, c.look, _, _, rfl, hlook, hd, hstep⟩
          · rename_i hn
            rw [if_neg hn] at hstep
            have hfault := hd.fault hstep
            exact ends_fail hc hfault

theorem ends_imports (hn : n < input.rounds) (he : Enters input expected n .imports h) :
    Ends input expected imports h (Follows input expected n .imports) := by
  rw [imports, ends_bind]
  refine (ends_skip_blanks he).imp ?_
  rintro _ h' ⟨m, hm, hr⟩
  obtain ⟨found, c, w, rfl, hf⟩ := faces_of_ready hr
  rw [ends_bind, ends_peek hf.sits]
  split
  · rename_i hp
    rw [ends_bind]
    refine (does_literal .importPath _ _ (hf.expand (by rw [hp]; rfl) _)).imp ?_
    intro _ h' hr
    exact follows_document hm hr
  · rename_i hp
    rw [ends_bind, ends_accept hf.sits, hp, Option.any_some, if_pos (decide_eq_true rfl), ends_bind]
    refine (ends_enclosed (s := .importPaths) (completes_series (Nat.lt_trans hm hn)) rfl
      (Series.allows_none (by simp)) (hf.take (by rw [hp]; rfl) _)).imp ?_
    intro _ h' hr
    exact follows_document hm hr
  · rename_i h1 h2
    refine ends_fail hf.sits (hf.fail ?_)
    unfold Construct.choose
    split <;> simp_all

theorem ends_scalar (hn : n < input.rounds) (he : Enters input expected n .scalar h) :
    Ends input expected scalar h (Follows input expected n .scalar) := by
  rw [scalar, ends_bind]
  refine (ends_skip_blanks he).imp ?_
  rintro _ h' ⟨m, hm, hr⟩
  obtain ⟨found, c, w, rfl, hf⟩ := faces_of_ready hr
  rw [ends_bind, ends_peek hf.sits]
  split
  · rename_i hp
    exact ends_series_document hn hm rfl (Series.allows_none (s := .directives .scalar) (by simp))
      (hf.expand (by rw [Construct.choose, if_pos hp]) _)
  · rename_i hp
    exact follows_document hm (hf.stay (by rw [Construct.choose, if_neg hp]) _)

theorem ends_objectBody {p : Phase} (hm : m < n) (hr : Ready input expected m [.construct .body] h) :
    Ends input expected objectBody h (Follows input expected n p) := by
  obtain ⟨found, c, w, rfl, hc, hd⟩ := hr
  have hf := faces_of_due hc hd
  rw [objectBody, ends_bind, ends_peek hf.sits]
  split
  · rename_i hp
    exact ⟨m, by simp only [Phase.rank]; omega, found, c, _, rfl, hc, hp, hd⟩
  · rename_i hp
    exact follows_document hm (hf.stay (by rw [hp]; rfl) _)
  · rename_i r hr hp
    have hk : Construct.body.choose c.peek =
        if isLineEnd r then .expand [] else .fail (.unexpectedInDeclaration r) := by
      rw [hp]
      unfold Construct.choose
      split <;> simp_all
    split
    · rename_i he
      exact follows_document hm (hf.stay (by rw [hk, if_pos he]) _)
    · rename_i he
      exact ends_fail hc (hf.fail (by rw [hk, if_neg he]))

theorem ends_object (hn : n < input.rounds) (he : Enters input expected n .object h) :
    Ends input expected object h (Follows input expected n .object) := by
  have hbody {h m} (hm : m < n)
      (hr : Ready input expected m [.construct (.directives .object), .construct .body] h) :
      Ends input expected (do directives series .object; objectBody) h (Follows input expected n .object) := by
    rw [ends_bind]
    exact (does_directives (completes_series (Nat.lt_trans hm hn)) _ _ _ hr).imp
      fun _ _ hr => ends_objectBody hm hr
  rw [object, ends_bind]
  refine (ends_skip_blanks he).imp ?_
  rintro _ h' ⟨m, hm, hr⟩
  obtain ⟨found, c, w, rfl, hf⟩ := faces_of_ready hr
  rw [ends_bind, ends_peek hf.sits]
  split
  · rename_i hp
    have hd := hf.due (by rw [Construct.choose, if_pos hp])
    rw [ends_bind]
    have hs : State.step input.mode ⟨c.look, [.name .implements, .elements .interfaces none,
        .construct .afterInterfaces]⟩ = Step.name .implements c.look _ := rfl
    refine (ends_identifier (c := c.look) hf.sits.look hd hs).imp ?_
    intro kind h' hnamed
    split
    · rename_i hk
      subst hk
      obtain ⟨k, hk, hh⟩ := hnamed.holds rfl rfl
      have hk : k < n := Nat.lt_trans hk hm
      rw [ends_bind]
      refine (ends_emit_of_holds hh).imp fun _ _ hr => ?_
      rw [← bind_assoc, ends_bind]
      refine (ends_inner_backup (completes_series (Nat.lt_trans hk hn)) rfl
        (Series.allows_none (s := .interfaces) (by simp)) hr).imp fun _ _ hr => ?_
      obtain ⟨found, c, w, rfl, hf⟩ := faces_of_ready hr
      rw [ends_bind, ends_peek hf.sits]
      split
      · rename_i hp
        exact hbody hk (hf.expand (by rw [Construct.choose, if_pos hp]) _)
      · rename_i hp
        exact follows_document hk (hf.stay (by rw [Construct.choose, if_neg hp]) _)
    · rename_i hk
      obtain ⟨found, c, taken, d, w, rfl, hc, hx, he⟩ := hnamed.fault (by
        cases kind with
        | none => rfl
        | some kind => simpa [NameRole.accepts] using hk)
      exact ends_fail hc he
  · rename_i hp
    exact hbody hm (hf.expand (by rw [Construct.choose, if_neg hp]) _)

theorem ends_members (hn : n < input.rounds) (he : Enters input expected n .members h) :
    Ends input expected members h (Follows input expected n .members) := by
  obtain ⟨found, c, w, rfl, hc, hp, hd⟩ := he
  have hstep : State.step input.mode ⟨c, [.construct .body]⟩ =
      Step.token (.mark .braceOpen) (c.rest.take 1) c.look c.look.next [.elements .members none] := by
    simp only [State.step, Step.construct, Cursor.peek_look, hp, Construct.choose]
    rfl
  obtain ⟨m, hm, hd⟩ := hd.token_lt hstep
  rw [members, ends_bind, ends_accept hc, hp, Option.any_some, if_pos (decide_eq_true rfl), ends_bind]
  refine (ends_enclosed (s := .members) (completes_series (Nat.lt_trans hm hn)) rfl
    (Series.allows_none (by simp)) ⟨found, c.look, _, _, _, rfl, hc.look, .next c.look, hd⟩).imp ?_
  intro _ h' hr
  exact follows_document hm hr

theorem ends_union (hn : n < input.rounds) (he : Enters input expected n .union h) :
    Ends input expected union h (Follows input expected n .union) := by
  rw [union, ends_bind]
  refine (ends_skip_blanks he).imp ?_
  rintro _ h' ⟨m, hm, hr⟩
  rw [ends_bind]
  refine (does_directives (completes_series (Nat.lt_trans hm hn)) .union _ _ hr).imp fun _ _ hr => ?_
  obtain ⟨found, c, w, rfl, hf⟩ := faces_of_ready hr
  have hc := hf.sits
  rw [ends_ifAccept hc]
  split
  · rename_i hp
    obtain ⟨r, hr, he⟩ := (Option.any_eq_true _ _).mp hp
    have hall : c.peek.all isLineEnd = true := by rw [hr]; exact he
    have hd := hf.due (show Construct.unionTypes.choose c.peek = .expand [] by
      rw [Construct.choose, if_pos hall])
    have hd : Due input expected m found ⟨c.look.next, []⟩ :=
      hd.drop (drops_topLevel _) (by rw [Cursor.peek_look, hr, Option.all_some, isSpace_eq, he, Bool.or_true])
    rw [ends_bind, ends_ignore]
    exact follows_document hm ⟨found, c.look.next, _, rfl, hc.look.next, hd⟩
  · rename_i hany
    rw [ends_bind, ends_peek hc]
    split
    · rename_i hp
      rw [ends_bind, ends_ignore]
      exact follows_document hm (hf.stay (by rw [hp]; rfl) _)
    · rename_i hp
      have hall : ¬ c.peek.all isLineEnd = true := by
        cases hr : c.peek with
        | none => exact absurd hr hp
        | some r => rwa [hr] at hany
      rw [ends_bind]
      refine (does_optional .equals _ [.elements .unionMembers (some '|')]
        (hf.expand (by rw [Construct.choose, if_neg hall]) _)).imp fun _ _ hr => ?_
      exact ends_series_document (s := .unionMembers) hn hm rfl (Series.allows_pipe (by simp)) hr

theorem does_declaredArguments (hn : n < input.rounds) :
    Does input expected n declaredArguments [.construct .declaredArguments] := by
  intro h rest hr
  obtain ⟨found, c, w, rfl, hf⟩ := faces_of_ready hr
  rw [declaredArguments, ends_ifAccept hf.sits]
  split
  · rename_i hp
    have hp : c.peek = some '(' := by simpa [Cursor.any_peek] using hp
    exact ends_enclosed (s := .arguments) (completes_series hn) rfl (Series.allows_none (by simp))
      (hf.take (by rw [Construct.choose, if_pos hp]) _)
  · rename_i hp
    have hp : c.peek ≠ some '(' := by simpa [Cursor.any_peek] using hp
    exact hf.expand (by rw [Construct.choose, if_neg hp]) _

theorem ends_directiveDeclaration (hn : n < input.rounds) (he : Enters input expected n .directive h) :
    Ends input expected directiveDeclaration h (Follows input expected n .directive) := by
  rw [directiveDeclaration, ends_bind]
  refine (ends_skip_blanks he).imp ?_
  rintro _ h' ⟨m, hm, hr⟩
  refine ends_required (p := .declaredDirective) hr ?_ ?_
  · intro h hh
    rw [ends_bind]
    refine (ends_emit_of_holds hh).imp fun _ _ hr => ?_
    rw [ends_bind]
    refine (does_name _ _ _ hr).imp fun _ _ hr => ?_
    rw [ends_bind]
    refine (does_blanks _ _ hr).imp fun _ _ hr => ?_
    rw [ends_bind]
    refine (does_declaredArguments (Nat.lt_trans hm hn) _ _ hr).imp fun _ _ hr => ?_
    rw [ends_bind]
    refine (does_blanks _ _ hr).imp fun _ h' hr => ?_
    obtain ⟨found, c, w, rfl, hc, hd⟩ := hr
    rw [ends_bind]
    have hs : State.step input.mode ⟨c, [.name .on, .elements .locations (some '|')]⟩ =
        Step.name .on c _ := rfl
    refine (ends_identifier hc hd hs).imp ?_
    intro kind h' hnamed
    split
    · rename_i hk
      subst hk
      obtain ⟨k, hk, hh⟩ := hnamed.holds rfl rfl
      rw [ends_bind]
      refine (ends_emit_of_holds hh).imp fun _ _ hr => ?_
      rw [ends_bind]
      refine (ends_skip_drop hr (drops_elements _ _ _ _) ?_).imp fun _ _ hr => ?_
      · intro r hr
        rw [isSpace_eq, hr, Bool.true_or]
      · exact ends_series_document (s := .locations) hn (Nat.lt_trans hk hm) rfl (Series.allows_pipe (by simp)) hr
    · rename_i hk
      obtain ⟨found, c, taken, d, w, rfl, hc, hx, he⟩ := hnamed.fault (by
        cases kind with
        | none => rfl
        | some kind => simpa [NameRole.accepts] using hk)
      exact ends_failQuoting hc hx he
  · intro found c hc _ he
    exact ends_fail hc he

/-! ## Definitions -/

/-- The goals of a definition behind its name, if it has one. -/
def behindName (k : Keyword) : List Goal :=
  if k ∈ [.imports, .extend, .schema, .directive] then Goal.definitionRest k
  else (Goal.definitionRest k).drop 3

theorem definitionRest_of_name {k : Keyword} (hk : k ∉ [.imports, .extend, .schema, .directive]) :
    Goal.definitionRest k = Goal.definitionName k ++ behindName k := by
  rw [behindName, if_neg hk]
  cases k <;> first | rfl | exact absurd (by decide) hk

/-- The head stands behind the word of a definition, which may still be pending. -/
def BehindWord (input : Input) (expected : List Item) (n : Nat) (k : Keyword) (h : Head) : Prop :=
  ∃ found c d w, h = .spanning found c d w ∧ d.Sits input ∧ (k ≠ .on → c = d) ∧
    Due input expected n found ⟨d, Goal.definitionRest k⟩

theorem ends_definitionWord {k : Keyword}
    (hn : Named input expected .definition n [] (some (.keyword k)) h) :
    Ends input expected (definitionWord k) h fun _ h' => ∃ m < n, BehindWord input expected m k h' := by
  rw [definitionWord]
  split
  · rename_i hk
    subst hk
    obtain ⟨found, c, taken, d, w, s, rfl, hc, hx, hd, hs⟩ := hn.step rfl
    rw [if_neg (by decide), List.append_nil] at hs
    obtain ⟨m, hm, hd⟩ := hd.move_lt hs
    exact ⟨m, hm, found, c, d, w, rfl, hc.crosses hx, fun hk => absurd rfl hk, hd⟩
  · rename_i hk
    obtain ⟨m, hm, hh⟩ := hn.holds rfl (by simp [NameRole.reports, hk])
    rw [List.append_nil] at hh
    refine (ends_emit_of_holds hh).imp ?_
    rintro _ h' ⟨found, c, w, rfl, hc, hd⟩
    exact ⟨m, hm, found, c, c, w, rfl, hc, fun _ => rfl, hd⟩

theorem ends_definitionName {k : Keyword} (hb : BehindWord input expected n k h) :
    Ends input expected (definitionName k) h fun _ => Ready input expected n (behindName k) := by
  obtain ⟨found, c, d, w, rfl, hds, hsame, hd⟩ := hb
  rw [definitionName]
  split
  · rename_i hk
    obtain rfl := hsame (by rintro rfl; revert hk; decide)
    refine ⟨found, c, w, rfl, hds, ?_⟩
    rwa [behindName, if_pos hk]
  · rename_i hk
    rw [definitionRest_of_name hk] at hd
    have hd : Due input expected n found ⟨d.skip isBlank,
        .construct (.typeName k) :: .name (.plain .typeName) :: behindName k⟩ := hd.move rfl
    have hf := faces_of_due (hds.skip _) hd
    rw [ends_bind, ends_skip hds, ends_bind, ends_peek hf.sits]
    split
    · rename_i hp
      exact does_name _ _ _ (hf.stay (by rw [Construct.choose, if_pos hp]) _)
    · rename_i hp
      exact ends_fail hf.sits (hf.fail (by rw [Construct.choose, if_neg hp]))

theorem ends_definitionPhase {k : Keyword} (hm : m < n) (hr : Ready input expected m (behindName k) h) :
    Ends input expected (definitionPhase k) h (Follows input expected n .definition) := by
  have hrank {q : Phase} (hq : q.rank = 0) : 2 * m + q.rank < 2 * n + Phase.definition.rank := by
    rw [hq]
    simp only [Phase.rank]
    omega
  have hunknown (hk : behindName k = [.construct (.unknown k)]) :
      Ends input expected (fail (.unknownDefinition k)) h (Follows input expected n .definition) := by
    rw [hk] at hr
    obtain ⟨found, c, w, rfl, hf⟩ := faces_of_ready hr
    exact ends_fail hf.sits (hf.fail rfl)
  cases k with
  | imports => exact ⟨m, hrank rfl, hr⟩
  | scalar => exact ⟨m, hrank rfl, hr⟩
  | schema => exact ⟨m, hrank rfl, hr⟩
  | type => exact ⟨m, hrank rfl, hr⟩
  | interface => exact ⟨m, hrank rfl, hr⟩
  | enum => exact ⟨m, hrank rfl, hr⟩
  | input => exact ⟨m, hrank rfl, hr⟩
  | union => exact ⟨m, hrank rfl, hr⟩
  | directive => exact ⟨m, hrank rfl, hr⟩
  | extend =>
    rw [definitionPhase, ends_bind]
    refine (does_blanks _ [.name .definition] hr).imp ?_
    rintro _ h' ⟨found, c, w, rfl, hc, hd⟩
    exact ⟨m, hrank rfl, found, c, w, _, rfl, hc, hd, rfl⟩
  | package => exact hunknown rfl
  | implements => exact hunknown rfl
  | on => exact hunknown rfl

theorem ends_definition (he : Enters input expected n .definition h) :
    Ends input expected definition h (Follows input expected n .definition) := by
  obtain ⟨found, c, w, s, rfl, hc, hd, hs⟩ := he
  rw [definition, ends_bind]
  refine (ends_identifier hc hd hs).imp ?_
  intro kind h' hn
  split
  · rw [ends_bind]
    refine (ends_definitionWord hn).imp ?_
    rintro _ h' ⟨m, hm, hb⟩
    rw [ends_bind]
    exact (ends_definitionName hb).imp fun _ _ hr => ends_definitionPhase hm hr
  · rename_i hk
    obtain ⟨found, c, taken, d, w, rfl, hc, hx, he⟩ := hn.fault (by
      cases kind with
      | none => rfl
      | some kind => cases kind <;> first | rfl | exact absurd rfl (hk _))
    exact ends_fail hc he

/-! ## Documents -/

theorem ends_phase {p : Phase} (hn : n < input.rounds) (he : Enters input expected n p h) :
    Ends input expected (phase p) h (Follows input expected n p) := by
  cases p with
  | document => exact ends_document he
  | definition => exact ends_definition he
  | imports => exact ends_imports hn he
  | scalar => exact ends_scalar hn he
  | object => exact ends_object hn he
  | members => exact ends_members hn he
  | union => exact ends_union hn he
  | directive => exact ends_directiveDeclaration hn he

theorem ends_phasesWithin {p : Phase} {rounds : Nat} (hle : rounds ≤ input.rounds)
    (hlt : 2 * n + p.rank < rounds) (he : Enters input expected n p h) :
    Ends input expected (phasesWithin rounds p) h fun _ h' => h'.found = expected := by
  induction rounds generalizing n p h with
  | zero => exact absurd hlt (Nat.not_lt_zero _)
  | succ rounds ih =>
    rw [phasesWithin, ends_bind]
    refine (ends_phase (by omega) he).imp ?_
    intro following h' hf
    cases following with
    | none => exact hf
    | some q =>
      obtain ⟨m, hm, he⟩ := hf
      exact ih (by omega) (by omega) he

/-- The phases come to an end, where all items have been found. -/
theorem ends_phases {p : Phase} (hlt : 2 * n + p.rank < input.rounds)
    (he : Enters input expected n p h) :
    Ends input expected (phases p) h fun _ h' => h'.found = expected := by
  rw [phases, ends_bind, ends_read]
  exact ends_phasesWithin (Nat.le_refl _) hlt he

theorem measure_initial_le (source : List UInt8) :
    (State.initial source).measure ≤ Goal.bound * source.length := by
  have hread := Rune.length_read_le source
  have hnext : (Cursor.start (Rune.read source)).next.rest.length ≤ (Rune.read source).length := by
    simp [Cursor.start]
  rw [State.initial]
  split
  · exact Nat.mul_le_mul_left _ (Nat.le_trans hnext hread)
  · exact Nat.mul_le_mul_left _ hread

/-- Behind the byte-order mark the first phase begins. -/
theorem ends_dropByteOrderMark (hs : input.source.length = input.doc.size)
    (henough : enoughRounds input.source ≤ input.rounds) :
    Ends input ((Trace.ofSource input.mode input.source).items input.doc.base) dropByteOrderMark Head.initial
      fun _ => Enters input ((Trace.ofSource input.mode input.source).items input.doc.base)
        (State.initial input.source).measure .document := by
  have hc : (Cursor.start (Rune.read input.source)).Sits input := ⟨hs, henough, Nat.zero_le _, rfl⟩
  have hready {c : Cursor} (hc : c.Sits input) (hi : (State.initial input.source).cursor = c) (w : Nat) :
      Enters input ((Trace.ofSource input.mode input.source).items input.doc.base)
        (State.initial input.source).measure .document (.at [] c w) := by
    refine ⟨[], c, w, rfl, hc, ?_, ?_⟩
    · subst hi
      rfl
    · subst hi
      exact Nat.le_refl _
  rw [dropByteOrderMark, ends_bind]
  rw [show Head.initial = .at [] (Cursor.start (Rune.read input.source)) 0 from rfl, ends_next hc]
  split
  · rename_i hp
    rw [ends_ignore]
    exact hready hc.next (by rw [State.initial, if_pos hp]) _
  · rename_i hp
    rw [ends_backup hc]
    exact hready hc (by rw [State.initial, if_neg hp]) _

theorem measure_initial_lt (henough : enoughRounds input.source ≤ input.rounds) :
    2 * (State.initial input.source).measure + Phase.document.rank < input.rounds := by
  have hle := measure_initial_le input.source
  simp only [enoughRounds, Phase.rank] at henough ⊢
  rw [Nat.mul_assoc] at henough
  omega

theorem ends_start {input : Input} (hs : input.source.length = input.doc.size)
    (henough : enoughRounds input.source ≤ input.rounds) :
    Ends input ((Trace.ofSource input.mode input.source).items input.doc.base) start Head.initial
      fun _ h => h.found = (Trace.ofSource input.mode input.source).items input.doc.base := by
  rw [start, ends_bind]
  exact (ends_dropByteOrderMark hs henough).imp fun _ _ he => ends_phases (measure_initial_lt henough) he

end Scanner

/-- A scanner with the whole source of its document and enough rounds finds the items of the trace. -/
theorem Input.items_eq_trace {doc : Document} {source : List UInt8} {mode : Mode} {rounds : Nat}
    (h : source.length = doc.size) (henough : enoughRounds source ≤ rounds) :
    Input.items ⟨doc, source, mode, rounds⟩ =
      some (.ok ((Trace.ofSource mode source).items doc.base)) := by
  have hstart := @Scanner.ends_start ⟨doc, source, mode, rounds⟩ h henough
  rw [Scanner.Ends] at hstart
  rw [Input.items, Input.offered, show { Head.initial with room := none } = Head.initial from rfl]
  split at hstart
  · exact hstart.elim
  · rename_i hrun
    rw [hrun]
    exact congrArg (fun items => some (Except.ok items)) hstart
  · exact hstart.elim
  · exact hstart.elim
  · rename_i message start line head hrun
    obtain ⟨hle, hfound⟩ := hstart
    have hle : start ≤ doc.size := h ▸ hle
    rw [hrun]
    simp only [Document.positionOf, if_pos hle, hfound]

/-- A scanner with the whole source of its document ends without a breach, within a number of rounds
that is linear in the source. Its items are those of the scan of the document, and the last of them is
the only terminal one. -/
theorem Document.scan_eq_descent {doc : Document} {source : List UInt8}
    (h : source.length = doc.size) (mode : Mode) :
    ∃ items after, doc.scan source mode = .ok (items, after) ∧
      (∀ rounds ≥ enoughRounds source,
        Input.items ⟨doc, source, mode, rounds⟩ = some (.ok items)) ∧
      Item.Closed items := by
  refine ⟨_, _, by rw [Document.scan, if_pos h], ?_, Trace.items_closed ..⟩
  intro rounds henough
  exact Input.items_eq_trace h henough

theorem Document.scan_eq_descent_stray :
    [0x23, 0xFF, 0x0A, 0x22].length = ({ name := "a", base := 1, size := 4 } : Document).size ∧
      ∃ items after, ({ name := "a", base := 1, size := 4 } : Document).scan
          [0x23, 0xFF, 0x0A, 0x22] ⟨true⟩ = .ok (items, after) ∧
        (∀ rounds ≥ enoughRounds [0x23, 0xFF, 0x0A, 0x22],
          Input.items ⟨{ name := "a", base := 1, size := 4 }, [0x23, 0xFF, 0x0A, 0x22], ⟨true⟩, rounds⟩ =
            some (.ok items)) ∧
        Item.Closed items :=
  ⟨rfl, Document.scan_eq_descent rfl ⟨true⟩⟩

end SchemaScan
