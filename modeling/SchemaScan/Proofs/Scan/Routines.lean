import SchemaScan.Proofs.Scan.Simulation

/-! # The routines of a descent

Every routine does its goals. Series and their elements call each other, so the proof is by the
measure of what is left: each pass of a series takes a step before it starts over, and an element that
holds another series takes its opening mark first.
-/
namespace SchemaScan

/-! ## Layout that may be dropped -/

namespace Cursor

theorem peek_skip (c : Cursor) (p : Char → Bool) : (c.skip p).peek.all (!p ·) = true := by
  rw [peek, rest_skip, Rune.afterRun]
  cases h : c.rest.dropWhile (p ·.char) with
  | nil => rfl
  | cons r rest =>
    have hne : c.rest.dropWhile (p ·.char) ≠ [] := by simp [h]
    have := List.head_dropWhile_not (fun r : Rune => p r.char) hne
    simpa [h] using this

end Cursor

theorem State.trace_congr {mode : Mode} {s t : State} (h : s.step mode = t.step mode) :
    s.trace mode = t.trace mode := by
  cases ht : t.step mode with
  | next found u => rw [trace_of_next ht, trace_of_next (h.trans ht)]
  | halt terminal c => rw [trace_of_halt ht, trace_of_halt (h.trans ht)]

theorem State.items_of_move {mode : Mode} {s t : State} (h : s.step mode = .next [] t) (base : Nat) :
    (s.trace mode).items base = (t.trace mode).items base := by
  rw [trace_of_next h]
  rfl

/-- In front of the goals the next character makes no difference, if it satisfies the condition. -/
def Drops (mode : Mode) (p : Char → Bool) (goals : List Goal) : Prop :=
  ∀ (c : Cursor) (base : Nat), c.peek.all p = true →
    (State.trace mode ⟨c.next, goals⟩).items base = (State.trace mode ⟨c, goals⟩).items base

theorem Due.drop {input : Input} {expected found : List Item} {n : Nat} {goals : List Goal} {c : Cursor}
    {p : Char → Bool} (h : Due input expected n found ⟨c, goals⟩) (hdrop : Drops input.mode p goals)
    (hp : c.peek.all p = true) : Due input expected n found ⟨c.next, goals⟩ := by
  refine ⟨?_, ?_⟩
  · rw [hdrop c _ hp]
    exact h.items
  · have := h.measure
    simp only [State.measure, Cursor.rest_next, List.length_drop, Goal.bound] at this ⊢
    omega

/-- Where there is a character, less is left to do behind it. -/
theorem Due.drop_lt {input : Input} {expected found : List Item} {n : Nat} {goals : List Goal} {c : Cursor}
    {p : Char → Bool} {r : Char} (h : Due input expected n found ⟨c, goals⟩)
    (hdrop : Drops input.mode p goals) (hr : c.peek = some r) (hp : p r = true) :
    ∃ m < n, Due input expected m found ⟨c.next, goals⟩ := by
  refine ⟨State.measure ⟨c.next, goals⟩, ?_, (h.drop hdrop (by rw [hr]; exact hp)).items, Nat.le_refl _⟩
  have := h.measure
  have := Cursor.length_next_lt hr
  simp only [State.measure, Goal.bound] at *
  omega

theorem drops_elements (mode : Mode) (s : Series) (fixed : Option Char) (goals : List Goal) :
    Drops mode isSpace (.elements s fixed :: goals) := by
  intro c base hp
  rw [State.trace_congr (t := ⟨c, .elements s fixed :: goals⟩)]
  simp only [State.step, Step.elements, Cursor.skip_next hp]

/-- If the goals are the same behind a stretch of characters, each of them may be dropped. -/
theorem drops_of_skip {mode : Mode} {p : Char → Bool} {goals : List Goal}
    (h : ∀ (c : Cursor) (base : Nat),
      (State.trace mode ⟨c.skip p, goals⟩).items base = (State.trace mode ⟨c, goals⟩).items base) :
    Drops mode p goals := by
  intro c base hp
  rw [← h c.next, ← h c, Cursor.skip_next hp]

theorem drops_topLevel (mode : Mode) : Drops mode isSpace [] := by
  refine drops_of_skip fun c base => ?_
  cases hp : c.peek.any isSpace with
  | true =>
    obtain ⟨r, hr, hs⟩ := (Option.any_eq_true _ _).mp hp
    rw [State.items_of_move (s := ⟨c, []⟩) (t := ⟨c.skip isSpace, []⟩)]
    simp only [State.step, Step.topLevel, Cursor.peek_look, hr, hs, ↓reduceIte, Cursor.skip_look]
  | false =>
    rw [Cursor.skip_of_not hp, State.trace_congr (t := ⟨c, []⟩)]
    simp only [State.step, Step.topLevel, Cursor.look_look]

namespace Series

/-- The separators that a series may be found to use. -/
structure Allows (s : Series) (fixed : Option Char) : Prop where
  visible : ∀ r, fixed = some r → isBlank r = false
  comma : s.separators = [','] → fixed = some ','

theorem contains_blank {r : Char} (h : isBlank r = true) (s : Series) :
    s.separators.contains r = s.isBlankSeparated := by
  simp only [isBlank, Bool.or_eq_true, decide_eq_true_eq] at h
  rcases h with rfl | rfl <;> cases s <;> rfl

theorem isEnd_of_lineEnd {s : Series} (h : s.endsAtLine = true) {r : Char} (hr : isLineEnd r = true) :
    s.isEnd r = true := by
  rw [endsAtLine] at h
  rw [isEnd]
  cases he : s.ending with
  | closing m => rw [he] at h; cases h
  | line stops => simp [hr]

end Series

theorem drops_separator {s : Series} {fixed : Option Char} (mode : Mode) (hs : s.isBlankSeparated = false)
    (ha : s.Allows fixed) (goals : List Goal) : Drops mode isBlank (.separator s fixed :: goals) := by
  refine drops_of_skip fun c base => ?_
  cases hp : c.peek.any isBlank with
  | true =>
    obtain ⟨r, hr, hb⟩ := (Option.any_eq_true _ _).mp hp
    have hf : fixed ≠ some r := by
      intro hf
      rw [ha.visible r hf] at hb
      cases hb
    rw [State.items_of_move (s := ⟨c, .separator s fixed :: goals⟩)
      (t := ⟨c.skip isBlank, .separator s fixed :: goals⟩)]
    simp only [State.step, Step.separator, Cursor.peek_look, hr, hf, hb, hs, Bool.not_false, ↓reduceIte,
      Cursor.skip_look]
  | false =>
    rw [Cursor.skip_of_not hp, State.trace_congr (t := ⟨c, .separator s fixed :: goals⟩)]
    simp only [State.step, Step.separator, Cursor.look_look]

/-! ## Comments -/

namespace Scanner

variable {input : Input} {expected found : List Item} {n : Nat} {goals : List Goal} {c : Cursor}
variable {s : Series} {fixed : Option Char} {h : Head} {state : State}

/-- Behind a comment at the end of a line. -/
def AtLineEnd (input : Input) (expected : List Item) (n : Nat) (goals : List Goal) (h : Head) : Prop :=
  ∃ found c w, h = .at found c w ∧ c.Sits input ∧ c.peek.all isLineEnd = true ∧
    Due input expected n found ⟨c, goals⟩

theorem peek_comment (c : Cursor) : (c.skip (!isLineEnd ·)).peek.all isLineEnd = true := by
  have := c.peek_skip (!isLineEnd ·)
  simpa using this

theorem skip_comment (hp : c.peek = some '#') :
    c.next.skip (!isLineEnd ·) = c.skip (!isLineEnd ·) :=
  Cursor.skip_next (by rw [hp]; rfl)

theorem ends_trailingComment (hd : Due input expected n found state) (hc : c.Sits input)
    (hp : c.peek = some '#') (hs : state.step input.mode = Step.comment input.mode c goals) :
    Ends input expected trailingComment (.spanning found c c.next c.width) fun _ h' =>
      ∃ m < n, AtLineEnd input expected m goals h' := by
  have hskip := hc.skip (!isLineEnd ·)
  simp only [trailingComment, ends_bind, ends_acceptRun hc.next, ends_read, skip_comment hp]
  rw [Step.comment] at hs
  split
  · rename_i hm
    rw [if_pos hm] at hs
    obtain ⟨m, hm, hd⟩ := hd.step_lt hs
    rw [ends_emit hc (.skip _ c)]
    exact ⟨m, hm, _, _, _, rfl, hskip, peek_comment c, hd⟩
  · rename_i hm
    rw [if_neg hm] at hs
    obtain ⟨m, hm, hd⟩ := hd.move_lt hs
    rw [ends_ignore]
    exact ⟨m, hm, _, _, _, rfl, hskip, peek_comment c, hd⟩

theorem ends_ignoreComment (hd : Due input expected n found ⟨c.skip (!isLineEnd ·), goals⟩)
    (hc : c.Sits input) (hp : c.peek = some '#') (hdrop : Drops input.mode isSpace goals) :
    Ends input expected ignoreComment (.spanning found c c.next c.width) fun _ =>
      Ready input expected n goals := by
  have hskip := hc.skip (!isLineEnd ·)
  simp only [ignoreComment, ends_bind, ends_pass hc.next, ends_ignore, skip_comment hp]
  refine ⟨_, _, _, rfl, hskip.next, hd.drop hdrop ?_⟩
  have := peek_comment c
  cases hr : (c.skip (!isLineEnd ·)).peek with
  | none => rfl
  | some r =>
    rw [hr] at this
    simp only [Option.all_some] at this ⊢
    rw [isSpace_eq, this, Bool.or_true]

theorem ends_comment (hd : Due input expected n found state) (hc : c.Sits input)
    (hp : c.peek = some '#') (hs : state.step input.mode = Step.comment input.mode c goals)
    (hdrop : Drops input.mode isSpace goals) :
    Ends input expected comment (.spanning found c c.next c.width) fun _ h' =>
      ∃ m < n, Ready input expected m goals h' := by
  have hskip := hc.skip (!isLineEnd ·)
  simp only [comment, ends_bind, ends_read]
  rw [Step.comment] at hs
  split
  · rename_i hm
    rw [if_pos hm] at hs
    obtain ⟨m, hm, hd⟩ := hd.step_lt hs
    simp only [ends_bind, ends_acceptRun hc.next, skip_comment hp]
    rw [ends_emit hc (.skip _ c)]
    exact ⟨m, hm, _, _, _, rfl, hskip, hd⟩
  · rename_i hm
    rw [if_neg hm] at hs
    obtain ⟨m, hm, hd⟩ := hd.move_lt hs
    exact (ends_ignoreComment hd hc hp hdrop).imp fun _ _ hr => ⟨m, hm, hr⟩

/-! ## Series -/

/-- What a series leaves: its closing mark, or the character that ends its line. -/
def Left (input : Input) (expected : List Item) (s : Series) (n : Nat) (goals : List Goal) (h : Head) :
    Prop :=
  match s.ending with
  | .closing m => Holds input expected (.mark m) n goals h
  | .line _ => Past input expected s.isEnd n goals h

theorem Left.mono {m : Nat} (hl : Left input expected s m goals h) (hm : m ≤ n) :
    Left input expected s n goals h := by
  unfold Left at *
  split at hl
  · exact hl.mono hm
  · exact hl.mono hm

theorem left_of_leave {r : Char} (hd : Due input expected n found state) (hc : c.Sits input)
    (hp : c.peek = some r) (he : s.isEnd r = true) (hs : state.step input.mode = Step.leave s c goals) :
    Left input expected s n goals (.spanning found c c.next c.width) := by
  rw [Step.leave] at hs
  rw [Left]
  split
  · rename_i hend
    rw [hend] at hs
    exact ⟨found, c, _, c.next, _, rfl, hc, .next c, hd.token hs⟩
  · rename_i hend
    rw [hend] at hs
    exact ⟨found, c, rfl, hc, by rw [hp]; exact he, hd.move hs⟩

theorem left_of_line (hd : Due input expected n found ⟨c, goals⟩) (hc : c.Sits input)
    (hs : s.endsAtLine = true) (hp : c.peek.all s.isEnd = true) :
    Left input expected s n goals (.spanning found c c.next c.width) := by
  rw [Series.endsAtLine] at hs
  rw [Left]
  split
  · rename_i hend
    rw [hend] at hs
    cases hs
  · exact ⟨found, c, rfl, hc, hp, hd⟩

/-- Where the goal is due, the routine takes what there is of a series up to its end. -/
def Completes (input : Input) (expected : List Item) (n : Nat) (goal : Series → Option Char → Goal)
    (routine : Series → Option Char → Scanner Unit) : Prop :=
  ∀ s fixed goals h, s.Allows fixed → Ready input expected n (goal s fixed :: goals) h →
    Ends input expected (routine s fixed) h fun _ => Left input expected s n goals

theorem ends_enclosed {inner : Series → Option Char → Scanner Unit}
    (hl : Completes input expected n .elements inner) {opening closing : Mark}
    (he : s.ending = .closing closing) (ha : s.Allows fixed)
    (hh : Holds input expected (.mark opening) n (.elements s fixed :: goals) h) :
    Ends input expected (enclosed inner opening closing s fixed) h fun _ => Ready input expected n goals := by
  rw [enclosed, ends_bind]
  refine (ends_emit_of_holds hh).imp fun _ _ hr => ?_
  rw [ends_bind]
  refine (hl s fixed goals _ ha hr).imp fun _ _ hr => ?_
  rw [Left, he] at hr
  exact ends_emit_of_holds hr

theorem ends_inner_backup {inner : Series → Option Char → Scanner Unit}
    (hl : Completes input expected n .elements inner) {stops : List Char}
    (he : s.ending = .line stops) (ha : s.Allows fixed)
    (hr : Ready input expected n (.elements s fixed :: goals) h) :
    Ends input expected (do inner s fixed; backup) h fun _ => Ready input expected n goals := by
  rw [ends_bind]
  refine (hl s fixed goals _ ha hr).imp fun _ _ hr => ?_
  rw [Left, he] at hr
  exact ends_backup_of_past hr

theorem Series.allows_none {s : Series} (h : s ≠ .directiveArguments) : s.Allows none := by
  refine ⟨fun r hr => (by cases hr), fun hs => ?_⟩
  cases s <;> simp_all [Series.separators]

theorem Series.allows_pipe {s : Series} (h : s ≠ .directiveArguments) : s.Allows (some '|') := by
  refine ⟨fun r hr => (by cases hr; rfl), fun hs => ?_⟩
  cases s <;> simp_all [Series.separators]

/-! ## Elements -/

section Elements

variable {inner : Series → Option Char → Scanner Unit}
variable (hl : Completes input expected n .elements inner)
include hl

theorem does_directives (site : DirectiveSite) :
    Does input expected n (directives inner site) [.construct (.directives site)] := by
  intro h rest hr
  obtain ⟨found, c, w, rfl, hf⟩ := faces_of_ready hr
  rw [directives, ends_bind, ends_peek hf.sits]
  split
  · rename_i hp
    have hr := hf.expand (by rw [Construct.choose, if_pos hp]) c.width
    obtain ⟨stops, he⟩ : ∃ stops, (Series.directives site).ending = .line stops := by
      cases site <;> exact ⟨_, rfl⟩
    exact ends_inner_backup hl he (Series.allows_none (by simp)) hr
  · rename_i hp
    exact hf.expand (by rw [Construct.choose, if_neg hp]) _

theorem does_value : Does input expected n (value inner) [.construct .value] := by
  intro h rest hr
  obtain ⟨found, c, w, rfl, hf⟩ := faces_of_ready hr
  rw [value, ends_bind, ends_peek hf.sits]
  split
  · rename_i hp
    rw [ends_bind, ends_accept hf.sits, hp, Option.any_some, if_pos (decide_eq_true rfl), ends_bind]
    refine (ends_emit_of_holds (hf.take (by rw [hp]; rfl) _)).imp fun _ _ hr => ?_
    exact does_name _ _ _ hr
  · rename_i hp
    exact does_literal _ _ _ (hf.expand (by rw [hp]; rfl) _)
  · rename_i hp
    rw [ends_bind, ends_accept hf.sits, hp, Option.any_some, if_pos (decide_eq_true rfl)]
    exact ends_enclosed hl rfl (Series.allows_none (by simp)) (hf.take (by rw [hp]; rfl) _)
  · rename_i hp
    rw [ends_bind, ends_accept hf.sits, hp, Option.any_some, if_pos (decide_eq_true rfl)]
    exact ends_enclosed hl rfl (Series.allows_none (by simp)) (hf.take (by rw [hp]; rfl) _)
  · rename_i r h1 h2 h3 h4 hp
    have hk : Construct.value.choose c.peek =
        if r = '-' || r.isDigit then .expand [.number]
        else if isNameStart r then .expand [.name (.plain .value)]
        else .fail (.invalidValue (some r)) := by
      rw [hp]
      simp only [Construct.choose]
    split
    · rename_i hn
      exact does_number _ _ (hf.expand (by rw [hk, if_pos hn]) _)
    · rename_i hn
      split
      · rename_i hs
        exact does_name _ _ _ (hf.expand (by rw [hk, if_neg hn, if_pos hs]) _)
      · rename_i hs
        exact ends_fail hf.sits (hf.fail (by rw [hk, if_neg hn, if_neg hs]))
  · rename_i hp
    exact ends_fail hf.sits (hf.fail (by rw [hp]; rfl))

theorem does_defaultValue : Does input expected n
    (do
      if ← accept (· = '=') then
        emit (.mark .equals)
        skip isBlank
        value inner
      else pure ())
    [.construct .defaultValue] := by
  intro h rest hr
  obtain ⟨found, c, w, rfl, hf⟩ := faces_of_ready hr
  rw [ends_ifAccept hf.sits]
  split
  · rename_i hp
    have hp : c.peek = some '=' := by simpa [Cursor.any_peek] using hp
    rw [ends_bind]
    refine (ends_emit_of_holds (hf.take (by rw [Construct.choose, if_pos hp]) _)).imp fun _ _ hr => ?_
    exact does_bind does_blanks (does_value hl) _ _ hr
  · rename_i hp
    have hp : c.peek ≠ some '=' := by simpa [Cursor.any_peek] using hp
    exact hf.expand (by rw [Construct.choose, if_neg hp]) _

theorem ends_signature (hh : Holds input expected (.mark .colon) n (Goal.signature ++ goals) h) :
    Ends input expected (signature inner) h fun _ => Ready input expected n goals := by
  rw [signature, ends_bind]
  refine (ends_emit_of_holds hh).imp fun _ _ hr => ?_
  exact does_bind does_blanks (does_bind (does_optional _) (does_bind (does_name _)
    (does_bind (does_optional _) (does_bind does_blanks (does_bind (does_optional _)
      (does_bind (does_optional _) (does_bind does_blanks (does_defaultValue hl)))))))) _ _ hr

theorem ends_memberType
    (hh : Holds input expected (.mark .colon) n (Goal.memberType ++ goals) h) :
    Ends input expected (memberType inner) h fun _ => Ready input expected n goals := by
  rw [memberType, ends_bind]
  refine (ends_signature hl hh).imp fun _ _ hr => ?_
  exact does_bind does_blanks (does_directives hl _) _ _ hr

theorem does_argument : Does input expected n (argument inner) (Goal.element .arguments) := by
  have htail : Does input expected n
      (do
        if ← accept (· = ':') then
          signature inner
          skip isBlank
          directives inner .argument
        else fail (.missingMark .argument none))
      ([.construct (.required .argument)] ++ (Goal.signature ++
        [.blanks, .construct (.directives .argument)])) := by
    intro h rest hr
    rw [List.append_assoc, List.append_assoc, List.singleton_append] at hr
    refine ends_required (p := .argument) hr ?_ ?_
    · intro h hh
      rw [ends_bind]
      refine (ends_signature hl hh).imp fun _ _ hr => ?_
      exact does_bind does_blanks (does_directives hl _) _ _ hr
    · intro found c hc _ he
      exact ends_fail hc he
  intro h rest hr
  rw [argument]
  exact does_bind does_description (does_bind (does_name _) (does_bind does_blanks htail)) _ _ hr

theorem does_assigned {place : MarkPlace} (hm : place.mark = .colon) :
    Does input expected n (assigned inner place)
      [.blanks, .construct (.required place), .blanks, .construct .value] := by
  intro h rest hr
  rw [assigned, ends_bind]
  refine (does_blanks _ _ hr).imp fun _ _ hr => ?_
  have hc : place.mark.char = ':' := by rw [hm]; rfl
  rw [← hc]
  refine ends_required hr ?_ ?_
  · intro h hh
    rw [hm] at hh
    rw [ends_bind]
    refine (ends_emit_of_holds hh).imp fun _ _ hr => ?_
    exact does_bind does_blanks (does_value hl) _ _ hr
  · intro found c hc _ he
    rw [ends_bind, ends_peek hc]
    exact ends_fail hc he

theorem does_directive (site : DirectiveSite) :
    Does input expected n (directive inner) (Goal.element (.directives site)) := by
  have harguments : Does input expected n
      (do
        if ← accept (· = '(') then
          enclosed inner .parenOpen .parenClose .directiveArguments (some ',')
        else pure ())
      [.construct .appliedArguments] := by
    intro h rest hr
    obtain ⟨found, c, w, rfl, hf⟩ := faces_of_ready hr
    rw [ends_ifAccept hf.sits]
    split
    · rename_i hp
      have hp : c.peek = some '(' := by simpa [Cursor.any_peek] using hp
      refine ends_enclosed hl rfl ⟨?_, fun _ => rfl⟩ (hf.take (by rw [Construct.choose, if_pos hp]) _)
      intro r hr
      cases hr
      rfl
    · rename_i hp
      have hp : c.peek ≠ some '(' := by simpa [Cursor.any_peek] using hp
      exact hf.expand (by rw [Construct.choose, if_neg hp]) _
  intro h rest hr
  rw [directive]
  refine ends_required (p := .directive) hr ?_ ?_
  · intro h hh
    rw [ends_bind]
    refine (ends_emit_of_holds hh).imp fun _ _ hr => ?_
    exact does_bind (does_name _) harguments _ _ hr
  · intro found c hc _ he
    exact ends_fail hc he

/-- Behind the blanks after its name, a member goes on as its goals do. -/
theorem ends_memberRest (hf : Faces input expected .memberRest n goals found c) {w rounds : Nat}
    (hb : c.peek.any isBlank = false) :
    Ends input expected (memberRestWithin inner (rounds + 1)) (.at found c w) fun _ =>
      Ready input expected n goals := by
  have hc := hf.sits
  rw [memberRestWithin, ends_bind, ends_next hc]
  split
  · rename_i hp
    have hh := hf.take (by rw [hp]; rfl) c.width
    rw [List.append_assoc] at hh
    rw [ends_bind]
    refine (ends_enclosed (s := .arguments) hl rfl (Series.allows_none (by simp)) hh).imp fun _ _ hr => ?_
    rw [ends_bind]
    refine (does_blanks _ _ hr).imp fun _ _ hr => ?_
    refine ends_required (p := .member) hr (fun hh => ends_memberType hl hh) ?_
    intro found c hc _ he
    exact ends_fail hc he
  · rename_i hp
    exact ends_memberType hl (hf.take (by rw [hp]; rfl) _)
  · rename_i hp
    rw [ends_bind, ends_backup hc]
    exact ends_inner_backup hl rfl (Series.allows_none (by simp)) (hf.expand (by rw [hp]; rfl) _)
  · rename_i r h1 h2 h3 hp
    rw [hp, Option.any_some] at hb
    rw [if_neg (by simp [hb]), ends_backup hc]
    refine hf.stay ?_ _
    rw [hp]
    simp only [Construct.choose]
    split <;> simp_all
  · rename_i hp
    rw [ends_backup hc]
    exact hf.stay (by rw [hp]; rfl) _

theorem does_memberRest :
    Does input expected n (memberRest inner) [.blanks, .construct .memberRest] := by
  rintro h rest ⟨found, c, w, rfl, hc, hd⟩
  have hd : Due input expected n found ⟨c.skip isBlank, .construct .memberRest :: rest⟩ := hd.move rfl
  have hf := faces_of_due (hc.skip _) hd
  have hstop : (c.skip isBlank).peek.any isBlank = false := by
    have := c.peek_skip isBlank
    cases hp : (c.skip isBlank).peek with
    | none => rfl
    | some r => simpa [hp] using this
  obtain ⟨rounds, hrounds⟩ := Nat.exists_eq_add_of_le' (Nat.le_trans (Nat.le_add_left 2 _) hc.enough)
  rw [memberRest, ends_bind, ends_read, hrounds]
  cases hb : c.peek.any isBlank with
  | true =>
    obtain ⟨r, hp, hr⟩ := (Option.any_eq_true _ _).mp hb
    rw [memberRestWithin, ends_bind, ends_next hc, hp]
    split
    · rename_i he
      cases he
      cases hr
    · rename_i he
      cases he
      cases hr
    · rename_i he
      cases he
      cases hr
    · rename_i r' _ _ _ he
      obtain rfl := Option.some.inj he
      rw [if_pos hr, ends_bind, ends_skip hc.next, Cursor.skip_next (by rw [hp]; exact hr)]
      exact ends_memberRest hl hf hstop
    · rename_i he
      cases he
  | false =>
    have hsame := Cursor.skip_of_not hb
    rw [hsame] at hf hstop
    exact ends_memberRest hl hf hstop

theorem does_member : Does input expected n (member inner) (Goal.element .members) := by
  intro h rest hr
  rw [member]
  exact does_bind does_description (does_bind (does_name _) (does_memberRest hl)) _ _ hr

theorem does_element (s : Series) : Does input expected n (element inner s) (Goal.element s) := by
  cases s <;> rw [element]
  case importPaths => exact does_literal _
  case interfaces => exact does_name _
  case members => exact does_member hl
  case arguments => exact does_argument hl
  case directives site => exact does_directive hl site
  case directiveArguments =>
    rw [directiveArgument]
    exact does_bind (does_name _) (does_assigned hl rfl)
  case values => exact does_value hl
  case objectFields =>
    rw [objectField]
    exact does_bind (does_name _) (does_assigned hl rfl)
  case unionMembers => exact does_name _
  case locations => exact does_name _

end Elements

/-! ## Passes of a series -/

variable {rounds : Nat}

theorem line_next {r : Char} (hp : c.peek = some r) (hr : r ≠ '\n') :
    c.next.line = c.line := by
  cases hrs : c.rest with
  | nil => rw [Cursor.peek_of_nil hrs] at hp; cases hp
  | cons rune rest =>
    rw [Cursor.peek_of_rest hrs, Option.some.injEq] at hp
    rw [(Cursor.next_crosses hrs).line, Rune.lineFeeds_singleton, hp, if_neg hr, Nat.add_zero]

/-- What ends the line is taken, if there is anything. -/
theorem ends_accept_end (hl : AtLineEnd input expected n goals h) (hs : s.endsAtLine = true) :
    Ends input expected (do let _ ← accept s.isEnd) h fun _ => Left input expected s n goals := by
  obtain ⟨found, c, w, rfl, hc, hp, hd⟩ := hl
  have hend : c.peek.all s.isEnd = true := by
    cases hr : c.peek with
    | none => rfl
    | some r =>
      rw [hr] at hp
      exact Series.isEnd_of_lineEnd hs hp
  have hleft := left_of_line hd hc hs hend
  rw [ends_bind, ends_accept hc]
  split
  · exact hleft
  · rename_i hany
    have hnil : c.rest = [] := by
      cases hr : c.peek with
      | none => exact Cursor.rest_eq_nil hr
      | some r =>
        rw [hr] at hend hany
        exact absurd hend hany
    rw [← (Cursor.next_crosses_nil hnil).spanning] at hleft
    exact hleft

theorem series_completes
    (ih : ∀ m < n, Completes input expected m .elements (seriesWithin rounds) ∧
      Completes input expected m .separator (separatorWithin rounds)) :
    Completes input expected n .elements (seriesWithin (rounds + 1)) := by
  rintro s fixed goals h ha ⟨found, c, w, rfl, hc, hd⟩
  have hds := hc.skip isSpace
  rw [seriesWithin, ends_bind, ends_skip hc, ends_bind, ends_next hds]
  split
  · rename_i hp
    obtain ⟨r, hr, he⟩ := (Option.any_eq_true _ _).mp hp
    refine left_of_leave hd hds hr he ?_
    simp only [State.step, Step.elements, hp, ↓reduceIte]
  · rename_i hend
    rw [ends_bind, ends_backup hds, ends_ifAccept hds]
    split
    · rename_i hp
      have hp : (c.skip isSpace).peek = some '#' := by simpa [Cursor.any_peek] using hp
      split
      · rename_i hs
        have hstep : State.step input.mode ⟨c, .elements s fixed :: goals⟩ =
            Step.comment input.mode (c.skip isSpace) goals := by
          simp only [State.step, Step.elements, if_neg hend, if_pos hp, if_pos hs]
        rw [ends_bind]
        refine (ends_trailingComment hd hds hp hstep).imp ?_
        rintro _ h' ⟨m, hm, hl⟩
        exact (ends_accept_end hl hs).imp fun _ _ hl => hl.mono (Nat.le_of_lt hm)
      · rename_i hs
        have hstep : State.step input.mode ⟨c, .elements s fixed :: goals⟩ =
            Step.comment input.mode (c.skip isSpace) (.elements s fixed :: goals) := by
          simp only [State.step, Step.elements, if_neg hend, if_pos hp, if_neg hs]
        rw [ends_bind]
        refine (ends_comment hd hds hp hstep (drops_elements _ _ _ _)).imp ?_
        rintro _ h' ⟨m, hm, hr⟩
        exact ((ih m hm).1 s fixed goals h' ha hr).imp fun _ _ hl => hl.mono (Nat.le_of_lt hm)
    · rename_i hp
      have hp : (c.skip isSpace).peek ≠ some '#' := by simpa [Cursor.any_peek] using hp
      have hstep : State.step input.mode ⟨c, .elements s fixed :: goals⟩ =
          .next [] ⟨c.skip isSpace, Goal.element s ++ .separator s fixed :: goals⟩ := by
        simp only [State.step, Step.elements, if_neg hend, if_neg hp]
      obtain ⟨m, hm, hd⟩ := hd.move_lt hstep
      rw [ends_bind]
      refine (does_element (ih m hm).1 s _ _ ⟨found, _, _, rfl, hds, hd⟩).imp fun _ h' hr => ?_
      exact ((ih m hm).2 s fixed goals h' ha hr).imp fun _ _ hl => hl.mono (Nat.le_of_lt hm)

section Separators

variable (ih : ∀ m < n, Completes input expected m .elements (seriesWithin rounds) ∧
  Completes input expected m .separator (separatorWithin rounds))
include ih

/-- Behind a separator a series goes on with less to do. -/
theorem ends_series_of_lt {m w : Nat} (hm : m < n) (ha : s.Allows fixed) (hc : c.Sits input)
    (hd : Due input expected m found ⟨c, .elements s fixed :: goals⟩) :
    Ends input expected (seriesWithin rounds s fixed) (.at found c w) fun _ => Left input expected s n goals :=
  ((ih m hm).1 s fixed goals _ ha ⟨found, c, w, rfl, hc, hd⟩).imp
    fun _ _ hl => hl.mono (Nat.le_of_lt hm)

variable {r : Char} (ha : s.Allows fixed) (hc : c.Sits input) (hp : c.peek = some r)
variable (hd : Due input expected n found ⟨c, .separator s fixed :: goals⟩)
include ha hc hp hd

theorem ends_blank_separator (hf : fixed ≠ some r) (hb : isBlank r = true) :
    Ends input expected
      (if s.separators.contains r then do
        skip isBlank
        let after ← peek
        if after.any s.isEnd then
          let _ ← next
        else if after = none ∧ s.endsAtLine then pure ()
        else seriesWithin rounds s fixed
      else do
        ignore
        separatorWithin rounds s fixed)
      (.spanning found c c.next c.width) fun _ => Left input expected s n goals := by
  rw [Series.contains_blank hb]
  split
  · rename_i hs
    have hline := Series.endsAtLine_of_blanks hs
    have hds := hc.skip isBlank
    simp only [ends_bind, ends_skip hc.next, Cursor.skip_next (c := c) (p := isBlank) (by rw [hp]; exact hb)]
    rw [ends_peek hds]
    have hstep : State.step input.mode ⟨c, .separator s fixed :: goals⟩ =
        if (c.skip isBlank).peek.all s.isEnd then .next [] ⟨c.skip isBlank, goals⟩
        else .next [] ⟨c.skip isBlank, .elements s fixed :: goals⟩ := by
      simp only [State.step, Step.separator, Cursor.peek_look, hp, if_neg hf, if_pos hb, hs, Bool.not_true,
        Bool.false_eq_true, ↓reduceIte, Cursor.skip_look]
    split
    · rename_i hend
      have hall : (c.skip isBlank).peek.all s.isEnd = true := by
        obtain ⟨r, hr, he⟩ := (Option.any_eq_true _ _).mp hend
        rw [hr]
        exact he
      rw [if_pos hall] at hstep
      rw [ends_bind, ends_next hds]
      exact left_of_line (hd.move hstep) hds hline hall
    · rename_i hend
      split
      · rename_i hnone
        have hall : (c.skip isBlank).peek.all s.isEnd = true := by rw [hnone.1]; rfl
        rw [if_pos hall] at hstep
        have hleft := left_of_line (hd.move hstep) hds hline hall
        rw [← (Cursor.next_crosses_nil (Cursor.rest_eq_nil hnone.1)).spanning] at hleft
        exact hleft
      · rename_i hnone
        have hall : ¬ (c.skip isBlank).peek.all s.isEnd = true := by
          cases hr : (c.skip isBlank).peek with
          | none => exact absurd ⟨hr, hline⟩ hnone
          | some r => rwa [hr] at hend
        rw [if_neg hall] at hstep
        obtain ⟨m, hm, hd⟩ := hd.move_lt hstep
        exact ends_series_of_lt ih hm ha hds hd
  · rename_i hs
    rw [ends_bind, ends_ignore]
    obtain ⟨m, hm, hd⟩ := hd.drop_lt (drops_separator _ (by simpa using hs) ha goals) hp hb
    exact ((ih m hm).2 s fixed goals _ ha ⟨_, _, _, rfl, hc.next, hd⟩).imp
      fun _ _ hl => hl.mono (Nat.le_of_lt hm)

theorem ends_comment_separator (hf : fixed ≠ some r) (hr : r = '#') :
    Ends input expected
      (if s.separators = [','] ∨ fixed = some ',' then fail .commentBeforeComma
      else if s.endsAtLine then do
        trailingComment
        separatorWithin rounds s fixed
      else do
        ignoreComment
        seriesWithin rounds s fixed)
      (.spanning found c c.next c.width) fun _ => Left input expected s n goals := by
  have hlook := hc.look
  subst hr
  have hstep : State.step input.mode ⟨c, .separator s fixed :: goals⟩ =
      if fixed = some ',' then Step.fail .commentBeforeComma c.look c.look.next
      else if s.endsAtLine then Step.comment input.mode c.look (.separator s fixed :: goals)
      else .next [] ⟨c.look.skip (!isLineEnd ·), .elements s fixed :: goals⟩ := by
    simp only [State.step, Step.separator, Cursor.peek_look, hp, if_neg hf]
    rfl
  split
  · rename_i hcomma
    rw [if_pos (hcomma.elim ha.comma id)] at hstep
    have hfault := hd.fault hstep
    exact ends_fail hc hfault
  · rename_i hcomma
    rw [if_neg fun hf => hcomma (.inr hf)] at hstep
    split
    · rename_i hs
      rw [if_pos hs] at hstep
      rw [ends_bind]
      refine (ends_trailingComment (c := c.look) hd hlook hp hstep).imp ?_
      rintro _ h ⟨m, hm, found, d, w, rfl, hds, -, hd⟩
      exact ((ih m hm).2 s fixed goals _ ha ⟨found, d, w, rfl, hds, hd⟩).imp
        fun _ _ hl => hl.mono (Nat.le_of_lt hm)
    · rename_i hs
      rw [if_neg hs] at hstep
      obtain ⟨m, hm, hd⟩ := hd.move_lt hstep
      rw [ends_bind]
      refine (ends_ignoreComment (c := c.look) hd hlook hp (drops_elements _ _ _ _)).imp ?_
      rintro _ h ⟨found, d, w, rfl, hds, hd⟩
      exact ends_series_of_lt ih hm ha hds hd

theorem ends_visible_separator (hf : fixed ≠ some r) (hb : isBlank r = false) (hr : r ≠ '#')
    (he : s.isEnd r = false) :
    Ends input expected
      (if s.separators.contains r then
        if fixed.isSome then
          if r = '\n' then do
            backup
            fail .mixedSeparators
          else fail .mixedSeparators
        else do
          ignore
          seriesWithin rounds s (some r)
      else fail (.invalidSeparator (some r)))
      (.spanning found c c.next c.width) fun _ => Left input expected s n goals := by
  have hlook := hc.look
  have hstep : State.step input.mode ⟨c, .separator s fixed :: goals⟩ =
      if s.separators.contains r then
        if fixed.isSome then Step.fail .mixedSeparators c.look c.look
        else .next [] ⟨c.look.next, .elements s (some r) :: goals⟩
      else Step.fail (.invalidSeparator (some r)) c.look c.look.next := by
    simp only [State.step, Step.separator, Cursor.peek_look, hp, if_neg hf, hb, hr, he, Bool.false_eq_true,
      ↓reduceIte]
  split
  · rename_i hs
    rw [if_pos hs] at hstep
    split
    · rename_i hsome
      rw [if_pos hsome] at hstep
      have hfault := hd.fault hstep
      split
      · rw [ends_bind, ends_backup hc]
        exact ends_fail hc hfault
      · rename_i hn
        refine ends_fail hc ?_
        rw [line_next hp hn]
        exact hfault
    · rename_i hsome
      rw [if_neg hsome] at hstep
      have hnone : fixed = none := by simpa using hsome
      obtain ⟨m, hm, hd⟩ := hd.move_lt hstep
      rw [ends_bind, ends_ignore]
      refine ends_series_of_lt (c := c.look.next) ih hm ⟨?_, ?_⟩ hlook.next hd
      · intro r' hr'
        cases hr'
        exact hb
      · intro hcomma
        rw [ha.comma hcomma] at hnone
        cases hnone
  · rename_i hs
    rw [if_neg hs] at hstep
    have hfault := hd.fault hstep
    exact ends_fail hc hfault

end Separators

theorem separator_completes
    (ih : ∀ m < n, Completes input expected m .elements (seriesWithin rounds) ∧
      Completes input expected m .separator (separatorWithin rounds)) :
    Completes input expected n .separator (separatorWithin (rounds + 1)) := by
  rintro s fixed goals h ha ⟨found, c, w, rfl, hc, hd⟩
  have hlook := hc.look
  rw [separatorWithin, ends_bind, ends_next hc]
  cases hp : c.peek with
  | none =>
    dsimp only
    split
    · rename_i hs
      refine left_of_line (c := c.look) (hd.move ?_) hlook hs (by rw [Cursor.peek_look, hp]; rfl)
      simp only [State.step, Step.separator, Cursor.peek_look, hp, if_pos hs]
    · rename_i hs
      refine ends_fail hc ?_
      have hl := (Cursor.next_crosses_nil (Cursor.rest_eq_nil hp)).line
      rw [Rune.lineFeeds_nil, Nat.add_zero] at hl
      rw [hl]
      have hstep : State.step input.mode ⟨c, .separator s fixed :: goals⟩ =
          Step.fail (.invalidSeparator none) c.look c.look := by
        simp only [State.step, Step.separator, Cursor.peek_look, hp, if_neg hs]
      have hfault := hd.fault hstep
      exact hfault
  | some r =>
    dsimp only
    split
    · rename_i hf
      rw [ends_bind, ends_ignore]
      obtain ⟨m, hm, hd⟩ := hd.move_lt (t := ⟨c.look.next, .elements s fixed :: goals⟩) (by
        simp only [State.step, Step.separator, Cursor.peek_look, hp, if_pos hf])
      exact ends_series_of_lt (c := c.look.next) ih hm ha hlook.next hd
    · rename_i hf
      split
      · rename_i hb
        exact ends_blank_separator ih ha hc hp hd hf hb
      · rename_i hb
        split
        · rename_i hr
          exact ends_comment_separator ih ha hc hp hd hf hr
        · rename_i hr
          split
          · rename_i he
            refine left_of_leave (c := c.look) hd hlook hp he ?_
            simp only [State.step, Step.separator, Cursor.peek_look, hp, if_neg hf, if_neg hb, if_neg hr,
              if_pos he]
          · rename_i he
            exact ends_visible_separator ih ha hc hp hd hf (by simpa using hb) hr (by simpa using he)

theorem completes_within {rounds : Nat} (hlt : n < rounds) :
    Completes input expected n .elements (seriesWithin rounds) ∧
      Completes input expected n .separator (separatorWithin rounds) := by
  induction rounds generalizing n with
  | zero => exact absurd hlt (Nat.not_lt_zero n)
  | succ rounds ih =>
    have ih (m : Nat) (hm : m < n) := ih (Nat.lt_of_lt_of_le hm (Nat.le_of_lt_succ hlt))
    exact ⟨series_completes ih, separator_completes ih⟩

/-- Every series goes on to its end. -/
theorem completes_series (hlt : n < input.rounds) : Completes input expected n .elements series := by
  intro s fixed goals h ha hr
  rw [series, ends_bind, ends_read]
  exact (completes_within hlt).1 s fixed goals h ha hr

end Scanner

end SchemaScan
