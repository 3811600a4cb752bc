import SchemaScan.Proofs.Scan.Words

/-! # What is due

While a scanner descends, the goals say which items are still due. A routine does its goals: started
where they are on top of the stack, it ends where the rest of the stack is due, or with the error that
the goals come to. The measure of what is left bounds how deep the routines go.
-/
namespace SchemaScan

section Due

variable {input : Input} {expected : List Item}

/-- With what has been found, the run from the state gives the expected items, and at most `n` is
left to do. -/
structure Due (input : Input) (expected : List Item) (n : Nat) (found : List Item) (s : State) :
    Prop where
  items : found ++ (s.trace input.mode).items input.doc.base = expected
  measure : s.measure ≤ n

namespace Due

variable {n m : Nat} {found : List Item} {s t : State}

theorem mono (h : Due input expected m found s) (hm : m ≤ n) : Due input expected n found s :=
  ⟨h.items, Nat.le_trans h.measure hm⟩

theorem step_lt {lexemes : List Lexeme} (h : Due input expected n found s)
    (hs : s.step input.mode = .next lexemes t) :
    ∃ m < n, Due input expected m (found ++ lexemes.map (·.item input.doc.base)) t := by
  have hi := h.items
  rw [State.trace_of_next hs] at hi
  refine ⟨t.measure, Nat.lt_of_lt_of_le (State.measure_lt_of_next hs) h.measure, ?_, Nat.le_refl _⟩
  rw [← hi, Trace.items, Trace.items, List.map_append, List.append_assoc, List.append_assoc]

theorem step {lexemes : List Lexeme} (h : Due input expected n found s)
    (hs : s.step input.mode = .next lexemes t) :
    Due input expected n (found ++ lexemes.map (·.item input.doc.base)) t := by
  obtain ⟨m, hm, hd⟩ := h.step_lt hs
  exact hd.mono (Nat.le_of_lt hm)

theorem token {kind : Kind} {taken : List Rune} {c after : Cursor} {goals : List Goal}
    (h : Due input expected n found s)
    (hs : s.step input.mode = Step.token kind taken c after goals) :
    Due input expected n (found ++ [Lexeme.item input.doc.base ⟨kind, c.offset, taken, after.line⟩])
      ⟨after, goals⟩ := h.step hs

theorem token_lt {kind : Kind} {taken : List Rune} {c after : Cursor} {goals : List Goal}
    (h : Due input expected n found s)
    (hs : s.step input.mode = Step.token kind taken c after goals) :
    ∃ m < n, Due input expected m
      (found ++ [Lexeme.item input.doc.base ⟨kind, c.offset, taken, after.line⟩]) ⟨after, goals⟩ :=
  h.step_lt hs

/-- A step that finds nothing. -/
theorem move_lt (h : Due input expected n found s) (hs : s.step input.mode = .next [] t) :
    ∃ m < n, Due input expected m found t := by
  have := h.step_lt hs
  rwa [List.map_nil, List.append_nil] at this

theorem move (h : Due input expected n found s) (hs : s.step input.mode = .next [] t) :
    Due input expected n found t := by
  have := h.step hs
  rwa [List.map_nil, List.append_nil] at this

theorem halt {terminal : Terminal} {d : Cursor} (h : Due input expected n found s)
    (hs : s.step input.mode = .halt terminal d) :
    found ++ [terminal.item input.doc.base] = expected := by
  have hi := h.items
  rwa [State.trace_of_halt hs] at hi

theorem fault {f : Fault} {c after : Cursor} (h : Due input expected n found s)
    (hs : s.step input.mode = Step.fail f c after) :
    found ++ [⟨.error, input.doc.base + c.offset, f.message, after.line⟩] = expected := h.halt hs

end Due

/-- The head stands where the goals are due. -/
def Ready (input : Input) (expected : List Item) (n : Nat) (goals : List Goal) (h : Head) : Prop :=
  ∃ found c w, h = .at found c w ∧ c.Sits input ∧ Due input expected n found ⟨c, goals⟩

/-- The pending text is a token of the kind, behind which the goals are due. -/
def Holds (input : Input) (expected : List Item) (kind : Kind) (n : Nat) (goals : List Goal) (h : Head) :
    Prop :=
  ∃ found c taken d w, h = .spanning found c d w ∧ c.Sits input ∧ c.Crosses taken d ∧
    Due input expected n (found ++ [Lexeme.item input.doc.base ⟨kind, c.offset, taken, d.line⟩])
      ⟨d, goals⟩

/-- The head has taken one rune more than it should, in front of which the goals are due; if there is
such a rune, it satisfies the condition. -/
def Past (input : Input) (expected : List Item) (p : Char → Bool) (n : Nat) (goals : List Goal)
    (h : Head) : Prop :=
  ∃ found c, h = .spanning found c c.next c.width ∧ c.Sits input ∧ c.peek.all p = true ∧
    Due input expected n found ⟨c, goals⟩

/-- The routine does the goals. -/
def Does (input : Input) (expected : List Item) (n : Nat) (m : Scanner Unit) (goals : List Goal) :
    Prop :=
  ∀ h rest, Ready input expected n (goals ++ rest) h →
    m.Ends input expected h fun _ => Ready input expected n rest

variable {n m : Nat} {goals : List Goal} {h : Head}

theorem Ready.mono (hr : Ready input expected m goals h) (hm : m ≤ n) :
    Ready input expected n goals h := by
  obtain ⟨found, c, w, rfl, hc, hd⟩ := hr
  exact ⟨found, c, w, rfl, hc, hd.mono hm⟩

theorem Holds.mono {kind : Kind} (hh : Holds input expected kind m goals h) (hm : m ≤ n) :
    Holds input expected kind n goals h := by
  obtain ⟨found, c, taken, d, w, rfl, hc, hx, hd⟩ := hh
  exact ⟨found, c, taken, d, w, rfl, hc, hx, hd.mono hm⟩

theorem Past.mono {p : Char → Bool} (hp : Past input expected p m goals h) (hm : m ≤ n) :
    Past input expected p n goals h := by
  obtain ⟨found, c, rfl, hc, he, hd⟩ := hp
  exact ⟨found, c, rfl, hc, he, hd.mono hm⟩

end Due

/-! ## Moves and goals -/

namespace Scanner

variable {input : Input} {expected found : List Item} {n m : Nat} {goals : List Goal} {c d : Cursor}
variable {w : Nat} {h : Head}

theorem ends_emit_of_holds {kind : Kind} (hh : Holds input expected kind n goals h) :
    Ends input expected (emit kind) h fun _ => Ready input expected n goals := by
  obtain ⟨found, c, taken, d, w, rfl, hc, hx, hd⟩ := hh
  rw [ends_emit hc hx]
  exact ⟨_, d, w, rfl, hc.crosses hx, hd⟩

theorem ends_backup_of_past {p : Char → Bool} (hp : Past input expected p n goals h) :
    Ends input expected backup h fun _ => Ready input expected n goals := by
  obtain ⟨found, c, rfl, hc, -, hd⟩ := hp
  rw [ends_backup hc]
  exact ⟨found, c, _, rfl, hc, hd⟩

theorem does_bind {m m' : Scanner Unit} {goals' : List Goal} (h : Does input expected n m goals)
    (h' : Does input expected n m' goals') :
    Does input expected n (m >>= fun _ => m') (goals ++ goals') := by
  intro head rest hr
  rw [List.append_assoc] at hr
  rw [ends_bind]
  exact (h _ _ hr).imp fun _ _ => h' _ _

theorem ends_skip_blanks (hr : Ready input expected n (.blanks :: goals) h) :
    Ends input expected (skip isBlank) h fun _ h' => ∃ m < n, Ready input expected m goals h' := by
  obtain ⟨found, c, w, rfl, hc, hd⟩ := hr
  rw [ends_skip hc]
  obtain ⟨m, hm, hd⟩ := hd.move_lt (t := ⟨c.skip isBlank, goals⟩) rfl
  exact ⟨m, hm, found, _, _, rfl, hc.skip _, hd⟩

theorem does_blanks : Does input expected n (skip isBlank) [.blanks] := by
  intro h rest hr
  refine (ends_skip_blanks hr).imp ?_
  rintro _ h' ⟨m, hm, hr⟩
  exact hr.mono (Nat.le_of_lt hm)

theorem does_space : Does input expected n (skip isSpace) [.space] := by
  rintro h rest ⟨found, c, w, rfl, hc, hd⟩
  rw [ends_skip hc]
  exact ⟨found, _, _, rfl, hc.skip _, hd.move (t := ⟨c.skip isSpace, rest⟩) rfl⟩

/-! ## Constructs -/

/-- The ways in which the next character may decide on a construct. -/
structure Faces (input : Input) (expected : List Item) (k : Construct) (n : Nat) (goals : List Goal)
    (found : List Item) (c : Cursor) : Prop where
  sits : c.Sits input
  due : ∀ {inner}, k.choose c.peek = .expand inner →
    Due input expected n found ⟨c.look, inner ++ goals⟩
  stay : k.choose c.peek = .expand [] → ∀ w, Ready input expected n goals (.at found c w)
  expand : ∀ {inner}, k.choose c.peek = .expand inner → ∀ w,
    Ready input expected n (inner ++ goals) (.at found c w)
  take : ∀ {mark inner}, k.choose c.peek = .take mark inner → ∀ w,
    Holds input expected (.mark mark) n (inner ++ goals) (.spanning found c c.next w)
  fail : ∀ {f}, k.choose c.peek = .fail f →
    found ++ [⟨.error, input.doc.base + c.offset, f.message, c.line⟩] = expected

theorem faces_of_due {k : Construct} (hc : c.Sits input)
    (hd : Due input expected n found ⟨c, .construct k :: goals⟩) :
    Faces input expected k n goals found c := by
  have hdue {inner} (hk : k.choose c.peek = .expand inner) :
      Due input expected n found ⟨c.look, inner ++ goals⟩ := by
    refine hd.move ?_
    simp only [State.step, Step.construct, Cursor.peek_look, hk]
  refine ⟨hc, hdue, ?_, ?_, ?_, ?_⟩
  · intro hk w
    exact ⟨found, c.look, w, rfl, hc.look, hdue hk⟩
  · intro inner hk w
    exact ⟨found, c.look, w, rfl, hc.look, hdue hk⟩
  · intro mark inner hk w
    have hs : State.step input.mode ⟨c, .construct k :: goals⟩ =
        Step.token (.mark mark) (c.rest.take 1) c c.look.next (inner ++ goals) := by
      simp only [State.step, Step.construct, Cursor.peek_look, hk]
      rfl
    exact ⟨found, c, _, c.look.next, w, rfl, hc, (Cursor.Crosses.next c.look).of_look, hd.token hs⟩
  · intro f hk
    have hs : State.step input.mode ⟨c, .construct k :: goals⟩ = Step.fail f c c.look := by
      simp only [State.step, Step.construct, Cursor.peek_look, hk]
      rfl
    have hfault := hd.fault hs
    exact hfault

theorem faces_of_ready {k : Construct} (hr : Ready input expected n (.construct k :: goals) h) :
    ∃ found c w, h = .at found c w ∧ Faces input expected k n goals found c := by
  obtain ⟨found, c, w, rfl, hc, hd⟩ := hr
  exact ⟨found, c, w, rfl, faces_of_due hc hd⟩

theorem does_optional (mark : Mark) :
    Does input expected n (optional mark) [.construct (.optional mark)] := by
  intro h rest hr
  obtain ⟨found, c, w, rfl, hf⟩ := faces_of_ready hr
  rw [optional, ends_ifAccept hf.sits]
  split
  · rename_i hp
    have hp : c.peek = some mark.char := by simpa [Cursor.any_peek] using hp
    exact ends_emit_of_holds (hf.take (by rw [Construct.choose, if_pos hp]) _)
  · rename_i hp
    have hp : c.peek ≠ some mark.char := by simpa [Cursor.any_peek] using hp
    exact hf.expand (by rw [Construct.choose, if_neg hp]) _

/-- A required mark is taken, or its absence is an error. -/
theorem ends_required {p : MarkPlace} {α : Type} {m other : Scanner α} {Q : α → Head → Prop}
    (hr : Ready input expected n (.construct (.required p) :: goals) h)
    (hm : ∀ {h}, Holds input expected (.mark p.mark) n goals h → Ends input expected m h Q)
    (ho : ∀ {found c}, c.Sits input → c.peek ≠ some p.mark.char → found ++ [⟨.error,
      input.doc.base + c.offset, (Fault.missingMark p c.peek).message, c.line⟩] = expected →
      Ends input expected other (.at found c c.width) Q) :
    Ends input expected (do if ← accept (· = p.mark.char) then m else other) h Q := by
  obtain ⟨found, c, w, rfl, hf⟩ := faces_of_ready hr
  rw [ends_ifAccept hf.sits]
  split
  · rename_i hc
    have hc : c.peek = some p.mark.char := by simpa [Cursor.any_peek] using hc
    exact hm (hf.take (by rw [Construct.choose, if_pos hc]) _)
  · rename_i hc
    have hc : c.peek ≠ some p.mark.char := by simpa [Cursor.any_peek] using hc
    exact ho hf.sits hc (hf.fail (by rw [Construct.choose, if_neg hc]))

/-! ## Literals and names -/

theorem ends_literal {role : StringRole} {s : State} (hc : c.Sits input)
    (hd : Due input expected n found s) (hs : s.step input.mode = Step.string role c goals) :
    Ends input expected (literal role) (.at found c w) fun _ h' =>
      ∃ m < n, Ready input expected m goals h' := by
  have hx : c.Crosses (StringLiteral.read c.rest).taken
      (c.advance (StringLiteral.read c.rest).taken (StringLiteral.read c.rest).rest).look :=
    (Cursor.Crosses.advance (StringLiteral.read_taken_append_rest c.rest)).look
  rw [literal, ends_bind, ends_string hc hx]
  rw [Step.string] at hs
  cases hv : (StringLiteral.read c.rest).value with
  | true =>
    rw [hv, if_pos rfl] at hs
    rw [if_pos rfl]
    obtain ⟨m, hm, hd⟩ := hd.token_lt hs
    exact (ends_emit_of_holds ⟨found, c, _, _, _, rfl, hc, hx, hd⟩).imp fun _ _ hr => ⟨m, hm, hr⟩
  | false =>
    rw [hv, if_neg Bool.false_ne_true] at hs
    rw [if_neg Bool.false_ne_true]
    exact ends_failQuoting hc hx (hd.fault hs)

theorem does_literal (role : StringRole) : Does input expected n (literal role) [.string role] := by
  rintro h rest ⟨found, c, w, rfl, hc, hd⟩
  refine (ends_literal hc hd rfl).imp ?_
  rintro _ h' ⟨m, hm, hr⟩
  exact hr.mono (Nat.le_of_lt hm)

theorem does_number : Does input expected n (do emit (← number)) [.number] := by
  rintro h rest ⟨found, c, w, rfl, hc, hd⟩
  have hx : c.Crosses (NumberLiteral.read c.rest).taken
      (c.advance (NumberLiteral.read c.rest).taken (NumberLiteral.read c.rest).rest).look :=
    (Cursor.Crosses.advance (NumberLiteral.read_taken_append_rest c.rest)).look
  rw [ends_bind]
  refine ends_number hc hx ?_ ?_
  · intro hv
    refine hd.fault (c := c) (f := .malformedNumber (Rune.text (NumberLiteral.read c.rest).taken)) ?_
    simp only [List.singleton_append, State.step, Step.number, hv]
  · intro kind hv
    refine ends_emit_of_holds ⟨found, c, _, _, _, rfl, hc, hx, hd.token ?_⟩
    simp only [List.singleton_append, State.step, Step.number, hv]

/-- What an identifier comes to: the last segment of the name is pending, and it is one if there is a
kind. -/
def Named (input : Input) (expected : List Item) (role : NameRole) (n : Nat) (goals : List Goal)
    (kind : Option Kind) (h : Head) : Prop :=
  ∃ found c w s, h = .spanning found c (c.skip isNameContinue) w ∧ c.Sits input ∧
    Due input expected n found s ∧ s.step input.mode = Step.name role c goals ∧
    if (NameSegment.read c.rest).value then
      kind = some (.ofName (Rune.text (NameSegment.read c.rest).taken)) ∧
        (c.skip isNameContinue).peek ≠ some '.'
    else kind = none

theorem ends_atTerminator (hd : d.Sits input) {Q : Bool → Head → Prop} :
    Ends input expected atTerminator (.spanning found c d w) Q ↔
      Q (NameSegment.endsBefore d.rest) (.spanning found c d d.width) := by
  rw [atTerminator, ends_bind, ends_peek hd]
  cases hrs : d.rest with
  | nil =>
    rw [Cursor.peek_of_nil hrs]
    exact ends_pure
  | cons r rest =>
    rw [Cursor.peek_of_rest hrs]
    exact ends_pure

theorem Named.mono {role : NameRole} {kind : Option Kind} (hn : Named input expected role m goals kind h)
    (hm : m ≤ n) : Named input expected role n goals kind h := by
  obtain ⟨found, c, w, s, rfl, hc, hd, hk⟩ := hn
  exact ⟨found, c, w, s, rfl, hc, hd.mono hm, hk⟩

/-- One round of a name: a segment with a period behind it is handed on with the period, and any other is the
last one. -/
theorem ends_identifierWithin_succ (hc : c.Sits input) {rounds : Nat} {Q : Option Kind → Head → Prop} :
    Ends input expected (identifierWithin (rounds + 1)) (.at found c w) Q ↔
      let d := c.skip isNameContinue
      let text := Rune.text (NameSegment.read c.rest).taken
      if (NameSegment.read c.rest).value then
        if d.peek = some '.' then
          Ends input expected (identifierWithin rounds) (.at (found ++
            [⟨.ofName text, input.doc.base + c.offset, text, d.line⟩,
              ⟨.mark .period, input.doc.base + d.offset, Rune.text (d.rest.take 1), d.next.line⟩])
            d.next d.width) Q
        else Q (some (.ofName text)) (.spanning found c d d.width)
      else Q none (.spanning found c d d.width) := by
  have hx := Cursor.Crosses.skip isNameContinue c
  have hskip := hc.skip isNameContinue
  have hv : (NameSegment.read c.rest).value = (decide (Rune.run isNameContinue c.rest ≠ []) &&
    NameSegment.endsBefore (c.skip isNameContinue).rest) := rfl
  have ht : (NameSegment.read c.rest).taken = Rune.run isNameContinue c.rest := rfl
  rw [identifierWithin]
  simp only [ends_bind, ends_get, ends_acceptRun hc, hv, ht]
  split
  · rename_i hpos
    have hnil : Rune.run isNameContinue c.rest = [] := Cursor.offset_skip_eq_iff.mp hpos
    rw [ends_pure, hnil, if_neg (by simp)]
  · rename_i hpos
    have hne : Rune.run isNameContinue c.rest ≠ [] := mt Cursor.offset_skip_eq_iff.mpr hpos
    rw [decide_eq_true hne, Bool.true_and]
    simp only [ends_bind, ends_atTerminator hskip]
    split
    · rename_i hterm
      rw [ends_pure, hterm, if_neg Bool.false_ne_true]
    · rename_i hterm
      rw [if_pos (by simpa using hterm)]
      simp only [ends_bind, ends_pending hc hx, ends_peek hskip]
      split
      · rename_i hdot
        simp only [ends_bind, ends_emit hc hx, ends_accept hskip]
        rw [if_pos (by simp [hdot]), ends_emit hskip (.next _), List.append_assoc]
        rfl
      · exact ends_pure

theorem ends_identifierWithin {role : NameRole} {s : State} {rounds : Nat} (hc : c.Sits input)
    (hlt : c.rest.length < rounds) (hd : Due input expected n found s)
    (hs : s.step input.mode = Step.name role c goals) :
    Ends input expected (identifierWithin rounds) (.at found c w)
      (Named input expected role n goals) := by
  induction rounds generalizing found c w s n with
  | zero => exact absurd hlt (Nat.not_lt_zero _)
  | succ rounds ih =>
    have hskip := hc.skip isNameContinue
    rw [ends_identifierWithin_succ hc]
    dsimp only
    split
    · rename_i hv
      split
      · rename_i hdot
        have hstep : s.step input.mode = .next
            [⟨.ofName (Rune.text (NameSegment.read c.rest).taken), c.offset,
                (NameSegment.read c.rest).taken, (c.skip isNameContinue).line⟩,
              ⟨.mark .period, (c.skip isNameContinue).offset, (c.skip isNameContinue).rest.take 1,
                (c.skip isNameContinue).next.line⟩]
            ⟨(c.skip isNameContinue).next, .name role :: goals⟩ := by
          rw [hs]
          simp only [Step.name, hv, Bool.not_true, Bool.false_eq_true, ↓reduceIte]
          exact if_pos hdot
        obtain ⟨m, hm, hd⟩ := hd.step_lt hstep
        have hless := Nat.lt_of_lt_of_le (Cursor.length_next_lt hdot) (Cursor.length_skip_le isNameContinue c)
        exact (ih hskip.next (by omega) hd rfl).imp fun _ _ hn => hn.mono (Nat.le_of_lt hm)
      · rename_i hdot
        refine ⟨found, c, _, s, rfl, hc, hd, hs, ?_⟩
        rw [if_pos hv]
        exact ⟨rfl, hdot⟩
    · rename_i hv
      refine ⟨found, c, _, s, rfl, hc, hd, hs, ?_⟩
      rw [if_neg hv]

theorem ends_identifier {role : NameRole} {s : State} (hc : c.Sits input)
    (hd : Due input expected n found s) (hs : s.step input.mode = Step.name role c goals) :
    Ends input expected identifier (.at found c w) (Named input expected role n goals) := by
  rw [identifier, ends_bind, ends_read]
  exact ends_identifierWithin hc hc.length_rest_lt hd hs

/-- A name that fits its role is followed by what the role asks for. -/
theorem Named.step {role : NameRole} {kind : Kind} (hn : Named input expected role n goals (some kind) h)
    (ha : role.accepts kind = true) :
    ∃ found c taken d w s, h = .spanning found c d w ∧ c.Sits input ∧ c.Crosses taken d ∧
      Due input expected n found s ∧ s.step input.mode =
        if role.reports kind then Step.token kind taken c d (role.following kind ++ goals)
        else .next [] ⟨d, role.following kind ++ goals⟩ := by
  obtain ⟨found, c, w, s, rfl, hc, hd, hs, hk⟩ := hn
  split at hk
  · rename_i hv
    obtain ⟨hkind, hdot⟩ := hk
    obtain rfl := Option.some.inj hkind
    refine ⟨found, c, _, _, w, s, rfl, hc, .skip isNameContinue c, hd, ?_⟩
    rw [hs]
    simp only [Step.name, hv, Bool.not_true, Bool.false_eq_true, ↓reduceIte, ha]
    exact if_neg hdot
  · cases hk

theorem Named.holds {role : NameRole} {kind : Kind}
    (hn : Named input expected role n goals (some kind) h) (ha : role.accepts kind = true)
    (hr : role.reports kind = true) :
    ∃ m < n, Holds input expected kind m (role.following kind ++ goals) h := by
  obtain ⟨found, c, taken, d, w, s, rfl, hc, hx, hd, hs⟩ := hn.step ha
  rw [if_pos hr] at hs
  obtain ⟨m, hm, hd⟩ := hd.token_lt hs
  exact ⟨m, hm, found, c, taken, d, w, rfl, hc, hx, hd⟩

/-- What is no name, or does not fit its role, is an error. -/
theorem Named.fault {role : NameRole} {kind : Option Kind}
    (hn : Named input expected role n goals kind h) (ha : kind.any role.accepts = false) :
    ∃ found c taken d w, h = .spanning found c d w ∧ c.Sits input ∧ c.Crosses taken d ∧
      found ++ [⟨.error, input.doc.base + c.offset, (role.fault (Rune.text taken)).message, d.line⟩] =
        expected := by
  obtain ⟨found, c, w, s, rfl, hc, hd, hs, hk⟩ := hn
  refine ⟨found, c, _, _, w, rfl, hc, .skip isNameContinue c, hd.fault (c := c) ?_⟩
  rw [hs]
  split at hk
  · rename_i hv
    obtain ⟨rfl, hdot⟩ := hk
    rw [Option.any_some] at ha
    simp only [Step.name, hv, Bool.not_true, Bool.false_eq_true, ↓reduceIte, ha, Bool.not_false]
    exact if_neg hdot
  · rename_i hv
    simp only [Step.name, hv, Bool.not_false, ↓reduceIte]
    rfl

theorem does_name (use : NameUse) : Does input expected n (name use) [.name (.plain use)] := by
  rintro h rest ⟨found, c, w, rfl, hc, hd⟩
  rw [name, ends_bind]
  have hs : State.step input.mode ⟨c, .name (.plain use) :: rest⟩ = Step.name (.plain use) c rest := rfl
  refine (ends_identifier hc hd hs).imp ?_
  intro kind h' hn
  cases kind with
  | some kind =>
    obtain ⟨m, hm, hh⟩ := hn.holds rfl rfl
    exact ends_emit_of_holds (hh.mono (Nat.le_of_lt hm))
  | none =>
    obtain ⟨found, c, taken, d, w, rfl, hc, hx, he⟩ := hn.fault rfl
    exact ends_failQuoting hc hx he

theorem does_description : Does input expected n description [.construct .description] := by
  intro h rest hr
  obtain ⟨found, c, w, rfl, hf⟩ := faces_of_ready hr
  rw [description, ends_bind, ends_peek hf.sits]
  split
  · rename_i hp
    exact does_bind (does_literal .description) does_space _ _
      (hf.expand (by rw [Construct.choose, if_pos hp]; rfl) _)
  · rename_i hp
    exact hf.expand (by rw [Construct.choose, if_neg hp]) _

end Scanner

end SchemaScan
