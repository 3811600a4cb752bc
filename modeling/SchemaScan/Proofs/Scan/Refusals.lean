import SchemaScan.Proofs.Scan.LineTables
import SchemaScan.Proofs.Scan.Phases
import SchemaScan.Stream.Sink

/-! # Refused items

A scanner whose receiver refuses an item stops at once, however deep it is in the parts of a document: no
routine goes on after a refusal, none takes it for a lexical error, and up to it all is as it would have
been. So the receiver has been offered the first items of the source, the refused one included, and no
others.
-/
namespace SchemaScan

/-- The head with a receiver that takes `k` items and refuses the next. -/
def Head.refusing (h : Head) (k : Nat) : Head := { h with room := some k }


namespace Scanner

variable {α β : Type} {m : Scanner α} {f : α → Scanner β} {input : Input} {h h' : Head} {k : Nat}

/-- Compared with a run whose receiver takes all items, a run whose receiver refuses one is the same as long
as that item is not found, and stops with the refusal if it is. -/
class Obeys (m : Scanner α) : Prop where
  grows : ∀ {input h r h'}, h.room = none → m input h = some (r, h') →
    h'.room = none ∧ h.found <+: h'.found
  agrees : ∀ {input h r h' k}, h.room = none → m input h = some (r, h') → h'.found.length ≤ k →
    m input (h.refusing k) = some (r, h'.refusing k)
  stops : ∀ {input h r h' k}, h.room = none → m input h = some (r, h') → h.found.length ≤ k →
    k < h'.found.length → ∃ g, m input (h.refusing k) = some (.error .refused, g) ∧
      g.found = h'.found.take (k + 1)

/-- What hands on no item obeys. -/
theorem Obeys.of_silent (hm : ∀ {input h r h'}, h.room = none → m input h = some (r, h') →
    h'.room = none ∧ h'.found = h.found ∧ ∀ k, m input (h.refusing k) = some (r, h'.refusing k)) :
    Obeys m := by
  constructor
  case grows =>
    intro input h r h' hroom hrun
    obtain ⟨hroom', hfound, -⟩ := hm hroom hrun
    exact ⟨hroom', by rw [hfound]⟩
  case agrees =>
    intro input h r h' k hroom hrun _
    exact (hm hroom hrun).2.2 k
  case stops =>
    intro input h r h' k hroom hrun hle hlt
    rw [(hm hroom hrun).2.1] at hlt
    exact absurd hle (Nat.not_le.mpr hlt)

instance obeys_pure (a : α) : Obeys (pure a : Scanner α) := by
  refine .of_silent fun {_ _ _ _} hroom hrun => ?_
  cases hrun
  exact ⟨hroom, rfl, fun _ => rfl⟩

instance obeys_throw (e : Stop) : Obeys (throw e : Scanner α) := by
  refine .of_silent fun {_ _ _ _} hroom hrun => ?_
  cases hrun
  exact ⟨hroom, rfl, fun _ => rfl⟩

instance obeys_read : Obeys (read : Scanner Input) := by
  refine .of_silent fun {_ _ _ _} hroom hrun => ?_
  cases hrun
  exact ⟨hroom, rfl, fun _ => rfl⟩

instance obeys_giveUp : Obeys (giveUp : Scanner α) := by
  refine .of_silent fun {_ _ _ _} hroom hrun => ?_
  cases hrun

/-- A refusal is handed through. -/
instance obeys_bind [hm : Obeys m] [hf : ∀ a, Obeys (f a)] : Obeys (m >>= f) := by
  constructor
  case grows =>
    intro input h r h' hroom hrun
    rw [bind_apply] at hrun
    split at hrun
    · cases hrun
    · rename_i a g hg
      obtain ⟨hroom', hfirst⟩ := hm.grows hroom hg
      obtain ⟨hroom'', hsecond⟩ := (hf a).grows hroom' hrun
      exact ⟨hroom'', hfirst.trans hsecond⟩
    · rename_i e g hg
      cases hrun
      exact hm.grows hroom hg
  case agrees =>
    intro input h r h' k hroom hrun hle
    rw [bind_apply] at hrun ⊢
    split at hrun
    · cases hrun
    · rename_i a g hg
      obtain ⟨hroom', -⟩ := hm.grows hroom hg
      obtain ⟨-, hprefix⟩ := (hf a).grows hroom' hrun
      rw [hm.agrees hroom hg (Nat.le_trans hprefix.length_le hle)]
      exact (hf a).agrees hroom' hrun hle
    · rename_i e g hg
      cases hrun
      rw [hm.agrees hroom hg hle]
  case stops =>
    intro input h r h' k hroom hrun hle hlt
    rw [bind_apply] at hrun ⊢
    split at hrun
    · cases hrun
    · rename_i a g hg
      obtain ⟨hroom', -⟩ := hm.grows hroom hg
      obtain ⟨-, hprefix⟩ := (hf a).grows hroom' hrun
      rcases Nat.lt_or_ge k g.found.length with hfirst | hfirst
      · -- the item is refused in the first part, and the second is not begun
        obtain ⟨g', hg', hfound⟩ := hm.stops hroom hg hle hfirst
        refine ⟨g', by rw [hg'], ?_⟩
        obtain ⟨more, hmore⟩ := hprefix
        rw [hfound, ← hmore, List.take_append_of_le_length hfirst]
      · rw [hm.agrees hroom hg hfirst]
        exact (hf a).stops hroom' hrun hfirst hlt
    · rename_i e g hg
      cases hrun
      obtain ⟨g', hg', hfound⟩ := hm.stops hroom hg hle hlt
      exact ⟨g', by rw [hg'], hfound⟩

theorem Obeys.step [Obeys m] (hf : ∀ a, Obeys (f a)) : Obeys (m >>= f) := obeys_bind

/-- What is read of a head does not depend on the receiver. -/
theorem Obeys.get {f : Head → Scanner β} (hf : ∀ h k, f (h.refusing k) = f h) (h : ∀ h, Obeys (f h)) :
    Obeys (get >>= f) := by
  constructor
  case grows => exact fun {_ g _ _} hroom hrun => (h g).grows hroom hrun
  case agrees =>
    intro input g r g' k hroom hrun hle
    change f (g.refusing k) input (g.refusing k) = _
    rw [hf]
    exact (h g).agrees hroom hrun hle
  case stops =>
    intro input g r g' k hroom hrun hle hlt
    change ∃ g'', f (g.refusing k) input (g.refusing k) = _ ∧ _
    rw [hf]
    exact (h g).stops hroom hrun hle hlt

instance obeys_ite {c : Prop} [Decidable c] {a b : Scanner α} [ha : Obeys a] [hb : Obeys b] :
    Obeys (if c then a else b) := by
  split
  · exact ha
  · exact hb

/-! ## Moves -/

instance obeys_minus (whole part : Nat) : Obeys (minus whole part) := by
  unfold minus
  infer_instance

instance obeys_slice (start stop : Nat) : Obeys (slice start stop) := by
  unfold slice
  infer_instance

instance obeys_next : Obeys next := by
  refine .of_silent fun {input h r h'} hroom hrun => ?_
  rcases Nat.lt_or_ge h.pos input.source.length with hlt | hend
  · cases hread : Rune.read (input.source.drop h.pos) with
    | nil =>
      have := Rune.read_eq_nil hread
      rw [List.drop_eq_nil_iff] at this
      omega
    | cons rune rest =>
      rw [next_of_read hlt hread] at hrun
      cases hrun
      exact ⟨hroom, rfl, fun k => next_of_read (h := h.refusing k) hlt hread⟩
  · rw [next_of_length_le hend] at hrun
    cases hrun
    exact ⟨hroom, rfl, fun k => next_of_length_le (h := h.refusing k) hend⟩

theorem pure_apply (a : α) : (pure a : Scanner α) input h = some (.ok a, h) := rfl

theorem get_apply : (get : Scanner Head) input h = some (.ok h, h) := rfl

theorem set_apply (g : Head) : (set g : Scanner PUnit) input h = some (.ok ⟨⟩, g) := rfl

theorem minus_apply (whole part : Nat) : minus whole part input h =
    if part ≤ whole then some (.ok (whole - part), h)
    else some (.error (.breach (.belowZero whole part)), h) := by
  unfold minus
  split <;> rfl

theorem byteAt_apply (offset : Nat) : byteAt offset input h =
    match input.source[offset]? with
    | some b => some (.ok b, h)
    | none => some (.error (.breach (.indexOutside offset)), h) := by
  unfold byteAt
  change (match input.source[offset]? with | some b => pure b | none => throw _ : Scanner UInt8) input h = _
  cases input.source[offset]? <;> rfl

theorem positionOf_apply (offset : Nat) : positionOf offset input h =
    match input.doc.positionOf offset with
    | .ok pos => some (.ok pos, h)
    | .error m => some (.error (.breach (.misuse m)), h) := by
  unfold positionOf
  change (match input.doc.positionOf offset with | .ok pos => pure pos | .error m => throw _ :
    Scanner Nat) input h = _
  cases input.doc.positionOf offset <;> rfl

theorem slice_apply (start stop : Nat) : slice start stop input h =
    if start ≤ stop ∧ stop ≤ input.source.length then
      some (.ok ((input.source.take stop).drop start), h)
    else some (.error (.breach (.sliceOutside start stop)), h) := by
  unfold slice
  change (if start ≤ stop ∧ stop ≤ input.source.length then pure _ else throw _ :
    Scanner (List UInt8)) input h = _
  split <;> rfl

/-- Where the head goes back to does not depend on the receiver. -/
theorem exists_backup (input : Input) (h : Head) :
    (∃ pos line, ∀ room, backup input { h with room } = some (.ok (), { h with pos, line, room })) ∨
      ∃ e, ∀ room, backup input { h with room } = some (.error e, { h with room }) := by
  by_cases hpos : h.width ≤ h.pos
  · by_cases hone : h.width = 1
    · rw [hone] at hpos
      cases hb : input.source[h.pos - 1]? with
      | none =>
        refine .inr ⟨.breach (.indexOutside (h.pos - 1)), fun room => ?_⟩
        simp [backup, bind_apply, get_apply, minus_apply, byteAt_apply, hpos, hone, hb]
      | some b =>
        by_cases hfeed : b = 0x0A
        · by_cases hline : 1 ≤ h.line
          · refine .inl ⟨h.pos - 1, h.line - 1, fun room => ?_⟩
            simp [backup, bind_apply, get_apply, set_apply, minus_apply, byteAt_apply, hpos, hone, hb, hfeed,
              hline]
          · refine .inr ⟨.breach (.belowZero h.line 1), fun room => ?_⟩
            simp [backup, bind_apply, get_apply, minus_apply, byteAt_apply, hpos, hone, hb, hfeed, hline]
        · refine .inl ⟨h.pos - 1, h.line, fun room => ?_⟩
          simp [backup, bind_apply, get_apply, set_apply, minus_apply, byteAt_apply, hpos, hone, hb, hfeed]
    · refine .inl ⟨h.pos - h.width, h.line, fun room => ?_⟩
      simp [backup, bind_apply, get_apply, set_apply, minus_apply, hpos, hone]
  · refine .inr ⟨.breach (.belowZero h.pos h.width), fun room => ?_⟩
    simp [backup, bind_apply, get_apply, minus_apply, hpos]

instance obeys_backup : Obeys backup := by
  refine .of_silent fun {input h r h'} hroom hrun => ?_
  have hhead : { h with room := none } = h := by rw [← hroom]
  rw [← hhead] at hrun
  obtain ⟨pos, line, hback⟩ | ⟨e, hback⟩ := exists_backup input h
  all_goals
    rw [hback none] at hrun
    cases hrun
    exact ⟨rfl, rfl, fun k => hback (some k)⟩

instance obeys_peek : Obeys peek := by
  unfold peek
  infer_instance

instance obeys_ignore : Obeys ignore := by
  refine .of_silent fun {_ _ _ _} hroom hrun => ?_
  cases hrun
  exact ⟨hroom, rfl, fun _ => rfl⟩

instance obeys_pending : Obeys pending := .get (fun _ _ => rfl) fun _ => inferInstance

/-- What the head hands on does not depend on the receiver, but what comes of it does. -/
theorem exists_emit (input : Input) (h : Head) (kind : Kind) :
    (∃ item, ∀ room, emit kind input { h with room } =
        some (if room = some h.found.length then .error .refused else .ok (),
          { h with start := h.pos, found := h.found ++ [item], room })) ∨
      ∃ e, ∀ room, emit kind input { h with room } = some (.error e, { h with room }) := by
  cases hpos : input.doc.positionOf h.start with
  | error m =>
    refine .inr ⟨.breach (.misuse m), fun room => ?_⟩
    simp only [emit, bind_apply, get_apply, positionOf_apply, hpos]
  | ok pos =>
    by_cases hle : h.start ≤ h.pos ∧ h.pos ≤ input.source.length
    · refine .inl ⟨⟨kind, pos, Utf8.lossy ((input.source.take h.pos).drop h.start), h.line⟩, fun room => ?_⟩
      simp only [emit, pending, bind_apply, get_apply, positionOf_apply, hpos, slice_apply, if_pos hle,
        pure_apply, set_apply]
      split <;> rfl
    · refine .inr ⟨.breach (.sliceOutside h.start h.pos), fun room => ?_⟩
      simp only [emit, pending, bind_apply, get_apply, positionOf_apply, hpos, slice_apply, if_neg hle]

/-- This is the only place where an item is refused. -/
instance obeys_emit (kind : Kind) : Obeys (emit kind) := by
  have hgiven {input : Input} {h h' : Head} {r : Except Stop Unit} (hroom : h.room = none)
      (hrun : emit kind input h = some (r, h')) :
      (h'.room = none ∧ h'.found = h.found ∧ ∀ k, emit kind input (h.refusing k) = some (r, h'.refusing k)) ∨
      (h'.room = none ∧ ∃ item, h'.found = h.found ++ [item] ∧ ∀ k, emit kind input (h.refusing k) =
        some (if k = h.found.length then .error .refused else r, h'.refusing k)) := by
    have hhead : { h with room := none } = h := by rw [← hroom]
    rw [← hhead] at hrun
    obtain ⟨item, hemit⟩ | ⟨e, hemit⟩ := exists_emit input h kind
    · rw [hemit none] at hrun
      cases hrun
      refine .inr ⟨rfl, item, rfl, fun k => ?_⟩
      rw [Head.refusing, hemit (some k)]
      simp only [Option.some.injEq]
      rfl
    · rw [hemit none] at hrun
      cases hrun
      exact .inl ⟨rfl, rfl, fun k => hemit (some k)⟩
  constructor
  case grows =>
    intro input h r h' hroom hrun
    obtain ⟨hroom', hfound, -⟩ | ⟨hroom', item, hfound, -⟩ := hgiven hroom hrun
    · exact ⟨hroom', by rw [hfound]⟩
    · exact ⟨hroom', item :: [], hfound.symm⟩
  case agrees =>
    intro input h r h' k hroom hrun hle
    obtain ⟨-, -, hsame⟩ | ⟨-, item, hfound, hsame⟩ := hgiven hroom hrun
    · exact hsame k
    · rw [hfound, List.length_append, List.length_singleton] at hle
      rw [hsame k, if_neg (by omega)]
  case stops =>
    intro input h r h' k hroom hrun hle hlt
    obtain ⟨-, hfound, -⟩ | ⟨-, item, hfound, hsame⟩ := hgiven hroom hrun
    · rw [hfound] at hlt
      exact absurd hle (Nat.not_le.mpr hlt)
    · rw [hfound, List.length_append, List.length_singleton] at hlt
      obtain rfl : k = h.found.length := by omega
      refine ⟨_, by rw [hsame, if_pos rfl], ?_⟩
      rw [Head.refusing, List.take_of_length_le]
      rw [hfound, List.length_append, List.length_singleton]

instance obeys_failWith (message : String) : Obeys (failWith message : Scanner α) :=
  .get (fun _ _ => rfl) fun _ => inferInstance

instance obeys_fail (f : Fault) : Obeys (fail f : Scanner α) := obeys_failWith f.message

instance obeys_failQuoting (f : String → Fault) : Obeys (failQuoting f : Scanner α) := by
  unfold failQuoting
  infer_instance

instance obeys_accept (p : Char → Bool) : Obeys (accept p) := by
  unfold accept
  infer_instance

instance obeys_passWithin (p : Char → Bool) (rounds : Nat) : Obeys (passWithin p rounds) := by
  induction rounds with
  | zero => exact obeys_giveUp
  | succ rounds ih =>
    unfold passWithin
    infer_instance

instance obeys_pass (p : Char → Bool) : Obeys (pass p) := by
  unfold pass
  infer_instance

instance obeys_acceptRun (p : Char → Bool) : Obeys (acceptRun p) := by
  unfold acceptRun
  infer_instance

instance obeys_skip (p : Char → Bool) : Obeys (skip p) := by
  unfold skip
  infer_instance

/-! ## Comments and tokens -/

instance obeys_ignoreComment : Obeys ignoreComment := by
  unfold ignoreComment
  infer_instance

instance obeys_comment : Obeys comment := by
  unfold comment
  infer_instance

instance obeys_trailingComment : Obeys trailingComment := by
  unfold trailingComment
  infer_instance

instance obeys_quotes : Obeys quotes := by
  refine .get (fun _ _ => rfl) fun h => ?_
  refine .step fun start => ?_
  exact .step fun _ => .get (fun _ _ => rfl) fun _ => inferInstance

instance obeys_stringBodyWithin (block : Bool) (rounds : Nat) : Obeys (stringBodyWithin block rounds) := by
  induction rounds with
  | zero => exact obeys_giveUp
  | succ rounds ih =>
    refine .step fun r => ?_
    split <;> infer_instance

instance obeys_stringBody (block : Bool) : Obeys (stringBody block) := by
  unfold stringBody
  infer_instance

instance obeys_string : Obeys string := by
  refine .get (fun _ _ => rfl) fun h => ?_
  refine .step fun _ => ?_
  refine .get (fun _ _ => rfl) fun h => ?_
  refine .step fun count => ?_
  split <;> infer_instance

instance obeys_fraction : Obeys fraction := by
  unfold fraction
  infer_instance

instance obeys_exponent : Obeys exponent := by
  unfold exponent
  infer_instance

instance obeys_number : Obeys number := by
  refine .step fun _ => ?_
  refine .get (fun _ _ => rfl) fun h => ?_
  refine .step fun _ => ?_
  refine .get (fun _ _ => rfl) fun h => ?_
  infer_instance

instance obeys_atTerminator : Obeys atTerminator := by
  refine .step fun r => ?_
  split <;> infer_instance

instance obeys_identifierWithin (rounds : Nat) : Obeys (identifierWithin rounds) := by
  induction rounds with
  | zero => exact obeys_giveUp
  | succ rounds ih =>
    refine .get (fun _ _ => rfl) fun h => ?_
    refine .step fun _ => ?_
    refine .get (fun _ _ => rfl) fun h => ?_
    infer_instance

instance obeys_identifier : Obeys identifier := by
  unfold identifier
  infer_instance

instance obeys_literal (role : StringRole) : Obeys (literal role) := by
  unfold literal
  infer_instance

instance obeys_name (use : NameUse) : Obeys (name use) := by
  refine .step fun kind => ?_
  split <;> infer_instance

instance obeys_optional (m : Mark) : Obeys (optional m) := by
  unfold optional
  infer_instance

instance obeys_description : Obeys description := by
  unfold description
  infer_instance

/-! ## Elements

The routines of elements obey if the routine that takes the series inside them does. -/

section Elements

variable {inner : Series → Option Char → Scanner Unit} [∀ s fixed, Obeys (inner s fixed)]

instance obeys_enclosed (opening closing : Mark) (s : Series) (fixed : Option Char) :
    Obeys (enclosed inner opening closing s fixed) := by
  unfold enclosed
  infer_instance

instance obeys_directives (site : DirectiveSite) : Obeys (directives inner site) := by
  unfold directives
  infer_instance

instance obeys_value : Obeys (value inner) := by
  refine .step fun r => ?_
  split <;> infer_instance

instance obeys_signature : Obeys (signature inner) := by
  unfold signature
  repeat refine .step fun _ => ?_
  infer_instance

instance obeys_memberType : Obeys (memberType inner) := by
  unfold memberType
  infer_instance

instance obeys_memberRestWithin (rounds : Nat) : Obeys (memberRestWithin inner rounds) := by
  induction rounds with
  | zero => exact obeys_giveUp
  | succ rounds ih =>
    refine .step fun r => ?_
    split <;> infer_instance

instance obeys_memberRest : Obeys (memberRest inner) := by
  unfold memberRest
  infer_instance

instance obeys_member : Obeys (member inner) := by
  unfold member
  infer_instance

instance obeys_argument : Obeys (argument inner) := by
  refine .step fun _ => .step fun _ => .step fun _ => .step fun colon => ?_
  infer_instance

instance obeys_directive : Obeys (directive inner) := by
  unfold directive
  infer_instance

instance obeys_assigned (place : MarkPlace) : Obeys (assigned inner place) := by
  unfold assigned
  infer_instance

instance obeys_directiveArgument : Obeys (directiveArgument inner) := by
  unfold directiveArgument
  infer_instance

instance obeys_objectField : Obeys (objectField inner) := by
  unfold objectField
  infer_instance

instance obeys_element (s : Series) : Obeys (element inner s) := by
  cases s <;> unfold element <;> infer_instance

end Elements

/-! ## Series -/

/-- Inside an element fewer rounds are left, so that a refusal in a series at any depth ends all series
around it. -/
theorem obeys_within (rounds : Nat) : (∀ s fixed, Obeys (seriesWithin rounds s fixed)) ∧
    ∀ s fixed, Obeys (separatorWithin rounds s fixed) := by
  induction rounds with
  | zero => exact ⟨fun _ _ => obeys_giveUp, fun _ _ => obeys_giveUp⟩
  | succ rounds ih =>
    obtain ⟨ihseries, ihseparator⟩ := ih
    constructor
    · intro s fixed
      refine .step fun _ => .step fun r => ?_
      infer_instance
    · intro s fixed
      refine .step fun r => ?_
      split <;> infer_instance

instance obeys_series (s : Series) (fixed : Option Char) : Obeys (series s fixed) := by
  have hwithin (rounds : Nat) : Obeys (seriesWithin rounds s fixed) := (obeys_within rounds).1 s fixed
  unfold series
  infer_instance

/-! ## Phases -/

instance obeys_document : Obeys document := by
  refine .step fun r => ?_
  split
  · refine .get (fun _ _ => rfl) fun h => ?_
    infer_instance
  · infer_instance

instance obeys_definitionWord (k : Keyword) : Obeys (definitionWord k) := by
  unfold definitionWord
  infer_instance

instance obeys_definitionName (k : Keyword) : Obeys (definitionName k) := by
  unfold definitionName
  infer_instance

instance obeys_definitionPhase (k : Keyword) : Obeys (definitionPhase k) := by
  cases k <;> unfold definitionPhase <;> infer_instance

instance obeys_definition : Obeys definition := by
  refine .step fun kind => ?_
  split <;> infer_instance

instance obeys_imports : Obeys imports := by
  refine .step fun _ => ?_
  refine .step fun r => ?_
  split <;> infer_instance

instance obeys_scalar : Obeys scalar := by
  unfold scalar
  infer_instance

instance obeys_objectBody : Obeys objectBody := by
  refine .step fun r => ?_
  split <;> infer_instance

instance obeys_object : Obeys object := by
  refine .step fun _ => .step fun r => ?_
  split
  · refine .step fun kind => ?_
    split
    · repeat refine .step fun _ => ?_
      infer_instance
    · infer_instance
  · infer_instance

instance obeys_members : Obeys members := by
  unfold members
  infer_instance

instance obeys_union : Obeys union := by
  refine .step fun _ => .step fun _ => .step fun atEnd => ?_
  infer_instance

instance obeys_declaredArguments : Obeys declaredArguments := by
  unfold declaredArguments
  infer_instance

instance obeys_directiveDeclaration : Obeys directiveDeclaration := by
  refine .step fun _ => .step fun sign => ?_
  split
  · repeat refine .step fun _ => ?_
    infer_instance
  · infer_instance

instance obeys_phase (p : Phase) : Obeys (phase p) := by
  cases p <;> unfold phase <;> infer_instance

instance obeys_phasesWithin (rounds : Nat) (current : Phase) : Obeys (phasesWithin rounds current) := by
  induction rounds generalizing current with
  | zero => exact obeys_giveUp
  | succ rounds ih =>
    refine .step fun following => ?_
    split <;> infer_instance

instance obeys_phases (current : Phase) : Obeys (phases current) := by
  unfold phases
  infer_instance

instance obeys_dropByteOrderMark : Obeys dropByteOrderMark := by
  unfold dropByteOrderMark
  infer_instance

instance obeys_start : Obeys start := by
  unfold start
  infer_instance

end Scanner

/-! ## What a receiver is offered -/

/-- A receiver that refuses the item after the first `k` is offered that item last. -/
theorem Input.offered_eq_take {doc : Document} {source : List UInt8} {mode : Mode} {rounds : Nat}
    (h : source.length = doc.size) (henough : enoughRounds source ≤ rounds) (k : Nat) :
    Input.offered ⟨doc, source, mode, rounds⟩ (some k) =
      some (.ok (((Trace.ofSource mode source).items doc.base).take (k + 1))) := by
  have hends := @Scanner.ends_start ⟨doc, source, mode, rounds⟩ h henough
  have hobeys : Scanner.Obeys Scanner.start := inferInstance
  rw [Scanner.Ends] at hends
  rw [Input.offered, show { Head.initial with room := some k } = Head.initial.refusing k from rfl]
  split at hends
  · exact hends.elim
  · rename_i u last hrun
    have hall : last.found = (Trace.ofSource mode source).items doc.base := hends
    rcases Nat.lt_or_ge k last.found.length with hlt | hle
    · obtain ⟨g, hg, hfound⟩ := hobeys.stops rfl hrun (Nat.zero_le _) hlt
      rw [hg, ← hall, ← hfound]
    · rw [hobeys.agrees rfl hrun hle, ← hall, List.take_of_length_le (Nat.le_succ_of_le hle)]
      rfl
  · exact hends.elim
  · exact hends.elim
  · rename_i message start line last hrun
    obtain ⟨hstart, hall⟩ := hends
    rw [← show last.found ++ [_] = (Trace.ofSource mode source).items doc.base from hall]
    rcases Nat.lt_or_ge k last.found.length with hlt | hle
    · obtain ⟨g, hg, hfound⟩ := hobeys.stops rfl hrun (Nat.zero_le _) hlt
      rw [hg, List.take_append_of_le_length hlt, ← hfound]
    · have hstart : start ≤ doc.size := h ▸ hstart
      rw [hobeys.agrees rfl hrun hle, List.take_of_length_le (by simpa using hle)]
      simp only [Document.positionOf, if_pos hstart]
      rfl

namespace Sink

theorem offer_append {σ : Type} (sink : Sink σ) (s : σ) (a b : List Item) :
    sink.offer s (a ++ b) = match sink.offer s a with
      | (s, true) => sink.offer s b
      | (s, false) => (s, false) := by
  induction a generalizing s with
  | nil => rfl
  | cons item a ih =>
    rw [List.cons_append, offer, offer]
    split
    · exact ih _
    · rfl

/-- Feeding a sink is offering it all items. -/
theorem feed_eq_offer {σ : Type} (sink : Sink σ) (mode : Mode) (base : Nat) (s : σ) (state : State) :
    sink.feed mode base s state = (sink.offer s ((state.trace mode).items base)).1 := by
  fun_induction feed sink mode base s state with
  | case1 s state terminal c hstep =>
    rw [State.trace_of_halt hstep]
    change _ = (match sink s (terminal.item base) with | (s, true) => (s, true) | (s, false) => (s, false)).1
    split <;> simp [*]
  | case2 s state found t hstep s' hoffer ih =>
    rw [State.trace_of_next hstep, Trace.items, List.map_append, List.append_assoc, offer_append, hoffer]
    exact ih
  | case3 s state found t hstep s' hoffer =>
    rw [State.trace_of_next hstep, Trace.items, List.map_append, List.append_assoc, offer_append, hoffer]

/-- Keeps the items that it is offered, takes the first `k` and refuses the next. -/
def refusing (k : Nat) : Sink (List Item) := fun kept item => (kept ++ [item], kept.length ≠ k)

theorem offer_refusing {k : Nat} {kept : List Item} (items : List Item) (h : kept.length ≤ k) :
    ((refusing k).offer kept items).1 = (kept ++ items).take (k + 1) := by
  induction items generalizing kept with
  | nil =>
    rw [List.append_nil, List.take_of_length_le (Nat.le_succ_of_le h)]
    rfl
  | cons item items ih =>
    have hkept : kept ++ item :: items = kept ++ [item] ++ items := by simp
    rw [offer, refusing]
    by_cases hk : kept.length = k
    · simp only [hk, ne_eq, not_true_eq_false, decide_false]
      rw [hkept, List.take_append_of_le_length (by simp [hk]), List.take_of_length_le (by simp [hk])]
    · simp only [hk, ne_eq, not_false_eq_true, decide_true]
      rw [hkept]
      exact ih (by simp; omega)

end Sink

/-- Wherever in a document the item stands that is refused, a receiver has been offered the items of the
document up to it and no others, and no error comes of it. -/
theorem Document.scan_refused {doc : Document} {source : List UInt8} (h : source.length = doc.size)
    (mode : Mode) :
    ∃ items after, doc.scan source mode = .ok (items, after) ∧ ∀ k,
      (∀ rounds ≥ enoughRounds source,
        Input.offered ⟨doc, source, mode, rounds⟩ (some k) = some (.ok (items.take (k + 1)))) ∧
      (Sink.refusing k).feed mode doc.base [] (State.initial source) = items.take (k + 1) := by
  refine ⟨_, _, doc.scan_of_size h mode, fun k => ⟨fun rounds henough => ?_, ?_⟩⟩
  · exact Input.offered_eq_take h henough k
  · rw [Sink.feed_eq_offer, Sink.offer_refusing _ (Nat.zero_le k)]
    rfl

/-- A number in a list in the default value of a member. -/
theorem Document.scan_refused_nested :
    let doc : Document := { name := "a", base := 1, size := 16 }
    let source : List UInt8 :=
      [0x69, 0x6E, 0x70, 0x75, 0x74, 0x20, 0x54, 0x7B, 0x61, 0x3A, 0x49, 0x3D, 0x5B, 0x31, 0x5D, 0x7D]
    source.length = doc.size ∧
      ∃ items after, doc.scan source {} = .ok (items, after) ∧ ∀ k,
        (∀ rounds ≥ enoughRounds source,
          Input.offered ⟨doc, source, {}, rounds⟩ (some k) = some (.ok (items.take (k + 1)))) ∧
        (Sink.refusing k).feed {} doc.base [] (State.initial source) = items.take (k + 1) :=
  ⟨rfl, Document.scan_refused rfl {}⟩

end SchemaScan
