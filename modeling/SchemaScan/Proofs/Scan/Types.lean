import SchemaScan.Proofs.Scan.Gaps
import SchemaScan.Proofs.Scan.Visits

/-! # The types of members and arguments

Behind the colon of a member or an argument the scan takes a name and four marks, each of which may be
missing. So it takes the six forms of types, and other forms too: those with a bracket that has no
counterpart, or with two bangs in a row.
-/
namespace SchemaScan

namespace Grammar

/-- Which of the marks around a name are there. -/
structure TypeForm where
  isOpened : Bool
  /-- There is a bang right behind the name. -/
  hasInnerBang : Bool
  isClosed : Bool
  hasOuterBang : Bool
  deriving DecidableEq, Repr

/-- The mark, if it is there. -/
def given (isThere : Bool) (m : Mark) : List Kind := if isThere then [.mark m] else []

def TypeForm.kinds (f : TypeForm) (name : List Kind) : List Kind :=
  given f.isOpened .bracketOpen ++ name ++ given f.hasInnerBang .bang ++
    given f.isClosed .bracketClose ++ given f.hasOuterBang .bang

/-- The six forms of types: the name or a list of it, and the non-null forms of both and of what is in the
list. -/
def typesOf (name : List Kind) : List (List Kind) :=
  let nonNull (type : List Kind) := type ++ [.mark .bang]
  let list (type : List Kind) := .mark .bracketOpen :: (type ++ [.mark .bracketClose])
  [name, nonNull name, list name, nonNull (list name), list (nonNull name),
    nonNull (list (nonNull name))]

/-- A bracket has its counterpart, and without brackets there is one bang at most. -/
def IsBalanced (kinds : List Kind) : Prop :=
  (.mark .bracketOpen ∈ kinds ↔ .mark .bracketClose ∈ kinds) ∧
    (.mark .bracketClose ∉ kinds → kinds.count (.mark .bang) ≤ 1)

theorem notMem_of_mem_name {w : List Kind} (h : w ∈ name) (m : Mark) : .mark m ∉ w := by
  obtain ⟨k, rfl, hk⟩ := h
  rw [List.mem_singleton]
  rintro rfl
  simp [Kind.isKeyword] at hk

/-- The only marks in a name are its periods. -/
theorem notMem_of_mem_qualified {w : List Kind} (h : w ∈ qualified) {m : Mark} (hm : m ≠ .period) :
    .mark m ∉ w := by
  obtain ⟨u, hu, v, hv, rfl⟩ := Language.mem_mul.mp h
  obtain ⟨segments, rfl, hsegments⟩ := Language.mem_kstar.mp hu
  rw [List.mem_append, List.mem_flatten]
  rintro (⟨segment, hsegment, hmem⟩ | hmem)
  · obtain ⟨n, hn, _, rfl, rfl⟩ := Language.mem_mul.mp (hsegments segment hsegment)
    rcases List.mem_append.mp hmem with hmem | hmem
    · exact notMem_of_mem_name hn m hmem
    · rw [List.mem_singleton, Kind.mark.injEq] at hmem
      exact hm hmem
  · exact notMem_of_mem_name hv m hmem

theorem isBalanced_of_mem_typesOf {q kinds : List Kind} (hq : q ∈ qualified) (h : kinds ∈ typesOf q) :
    IsBalanced kinds := by
  have hopen : .mark .bracketOpen ∉ q := notMem_of_mem_qualified hq (by decide)
  have hclose : .mark .bracketClose ∉ q := notMem_of_mem_qualified hq (by decide)
  have hbang : q.count (.mark .bang) = 0 :=
    List.count_eq_zero.mpr (notMem_of_mem_qualified hq (by decide))
  simp only [typesOf, List.mem_cons, List.not_mem_nil, or_false] at h
  rcases h with rfl | rfl | rfl | rfl | rfl | rfl <;> simp [IsBalanced, hopen, hclose, hbang]

/-- A name with marks around it is a type exactly if it is balanced. -/
theorem kinds_mem_typesOf_iff {q : List Kind} (hq : q ∈ qualified) (f : TypeForm) :
    f.kinds q ∈ typesOf q ↔ IsBalanced (f.kinds q) := by
  have hopen : .mark .bracketOpen ∉ q := notMem_of_mem_qualified hq (by decide)
  have hclose : .mark .bracketClose ∉ q := notMem_of_mem_qualified hq (by decide)
  have hbang : q.count (.mark .bang) = 0 :=
    List.count_eq_zero.mpr (notMem_of_mem_qualified hq (by decide))
  refine ⟨isBalanced_of_mem_typesOf hq, fun h => ?_⟩
  obtain ⟨isOpened, hasInnerBang, isClosed, hasOuterBang⟩ := f
  cases isOpened <;> cases hasInnerBang <;> cases isClosed <;> cases hasOuterBang <;>
    simp [IsBalanced, TypeForm.kinds, given, typesOf, hopen, hclose, hbang] at h ⊢

end Grammar

/-! ## Working off goals -/

theorem State.goals_of_eof {mode : Mode} {s : State} {start line : Nat} {c : Cursor}
    (h : s.step mode = .halt (.eof start line) c) : s.goals = [] := by
  obtain ⟨d, goals⟩ := s
  cases goals with
  | nil => rfl
  | cons g goals =>
    cases g <;>
      simp only [step, Step.name, Step.string, Step.number, Step.elements, Step.separator, Step.construct,
        Step.comment, Step.leave, Step.mark, Step.token, Step.fail] at h <;>
      (repeat' split at h) <;> cases h

namespace Goal

/-- Between the two cursors the scan works off the goals on top of the stack and finds the tokens. It stops
when it first comes to what is below them. -/
inductive Done (mode : Mode) (below : List Goal) : List Goal → Cursor → List Lexeme → Cursor → Prop
  | nil (c : Cursor) : Done mode below [] c [] c
  | step {g : Goal} {goals inner : List Goal} {c d e : Cursor} {found more : List Lexeme}
    (h : State.step mode ⟨c, g :: goals ++ below⟩ = .next found ⟨d, inner ++ below⟩)
    (hd : Done mode below inner d more e) : Done mode below (g :: goals) c (found ++ more) e

namespace Done

variable {mode : Mode} {below goals : List Goal} {c d : Cursor} {found : List Lexeme}

theorem leads (h : Done mode below goals c found d) :
    State.Leads mode ⟨c, goals ++ below⟩ found ⟨d, below⟩ := by
  induction h with
  | nil c => exact .refl _
  | step h _ ih => exact (State.Leads.of_next h).trans ih

/-- A scan that reaches the end works off whatever is on top of its stack. -/
theorem exists_of_eof {s : State} {start line : Nat}
    (h : (s.trace mode).terminal = .eof start line) (hs : s.goals = goals ++ below) :
    ∃ found d, Done mode below goals s.cursor found d := by
  fun_induction State.trace mode s generalizing goals with
  | case1 s terminal d hhalt =>
    obtain rfl : terminal = .eof start line := h
    rw [State.goals_of_eof hhalt] at hs
    rw [(List.append_eq_nil_iff.mp hs.symm).1]
    exact ⟨_, _, .nil _⟩
  | case2 s found t hnext rest =>
    rename_i ih
    obtain ⟨c, all⟩ := s
    obtain rfl : all = goals ++ below := hs
    cases goals with
    | nil => exact ⟨_, _, .nil _⟩
    | cons g goals =>
      have hturns := State.turns_of_next hnext
      obtain ⟨e, after⟩ := t
      cases hturns with
      | inside hinner =>
        rename_i inner
        obtain ⟨more, d, hd⟩ := ih h (List.append_assoc inner goals below).symm
        have hstep : State.step mode ⟨c, g :: goals ++ below⟩ =
            .next found ⟨e, inner ++ goals ++ below⟩ := by
          rw [List.append_assoc]
          exact hnext
        exact ⟨_, _, .step hstep hd⟩

/-! ### Single goals -/

theorem of_blanks (h : Done mode below (.blanks :: goals) c found d) :
    Done mode below goals (c.skip isBlank) found d := by
  cases h with
  | step h hd =>
    simp only [List.cons_append, State.step, Step.next.injEq, State.mk.injEq] at h
    obtain ⟨rfl, rfl, hinner⟩ := h
    rw [List.append_cancel_right hinner]
    exact hd

theorem of_optional {m : Mark} (h : Done mode below (.construct (.optional m) :: goals) c found d) :
    ∃ isThere more e, found.map (·.kind) = Grammar.given isThere m ++ more.map (·.kind) ∧
      Done mode below goals e more d := by
  cases h with
  | step h hd =>
    simp only [List.cons_append, State.step, Step.construct, Construct.choose] at h
    split at h
    · rename_i hk
      split at hk
      · cases hk
      · cases hk
        simp only [List.nil_append, Step.next.injEq, State.mk.injEq] at h
        obtain ⟨rfl, rfl, hinner⟩ := h
        rw [← List.append_cancel_right hinner] at hd
        exact ⟨false, _, _, rfl, hd⟩
    · rename_i hk
      split at hk
      · cases hk
        simp only [List.nil_append, Step.mark, Step.token, Step.next.injEq, State.mk.injEq] at h
        obtain ⟨rfl, rfl, hinner⟩ := h
        rw [← List.append_cancel_right hinner] at hd
        exact ⟨true, _, _, rfl, hd⟩
      · cases hk
    · cases h

theorem of_name {use : NameUse} (h : Done mode below (.name (.plain use) :: goals) c found d) :
    ∃ q ∈ Grammar.qualified, ∃ more e, found.map (·.kind) = q ++ more.map (·.kind) ∧
      Done mode below goals e more d := by
  -- every segment with a period behind it leaves the same goal again
  generalize hall : Goal.name (.plain use) :: goals = all at h
  induction h with
  | nil => cases hall
  | @step g goals' inner c d e found more h hd ih =>
    cases hall
    simp only [List.cons_append, State.step, Step.name] at h
    have hname := Kind.ofName_mem_name (Rune.text (NameSegment.read c.rest).taken)
    split at h
    · cases h
    · split at h
      · simp only [Step.next.injEq, State.mk.injEq] at h
        obtain ⟨rfl, rfl, hinner⟩ := h
        rw [← List.cons_append] at hinner
        obtain ⟨q, hq, more', f, hmore, hgoals⟩ := ih (List.append_cancel_right hinner)
        have hperiod : [Kind.mark .period] ∈ Grammar.mark .period := rfl
        refine ⟨_, NameRole.segment_words (.plain use)
          (Language.append_mem_mul (Language.append_mem_mul hname hperiod) hq), more', f, ?_, hgoals⟩
        rw [List.map_append, hmore]
        rfl
      · simp only [NameRole.accepts, NameRole.reports, NameRole.following, Step.token] at h
        simp only [Bool.not_true, Bool.false_eq_true, ↓reduceIte, reduceCtorEq, decide_false, Bool.false_and,
          Bool.not_false, List.nil_append, Step.next.injEq, State.mk.injEq] at h
        obtain ⟨rfl, rfl, hinner⟩ := h
        rw [← List.append_cancel_right hinner] at hd
        refine ⟨_, Grammar.name_le_qualified hname, more, _, ?_, hd⟩
        rw [List.map_append]
        rfl

end Done

/-- A type, without the default value. -/
def type : List Goal :=
  [blanks, construct (.optional .bracketOpen), name (.plain .typeName), construct (.optional .bang), blanks,
    construct (.optional .bracketClose), construct (.optional .bang), blanks]

theorem signature_eq : signature = type ++ [construct .defaultValue] := rfl

/-- What is found for a type has one of the forms. -/
theorem Done.type_form {mode : Mode} {below : List Goal} {c d : Cursor} {found : List Lexeme}
    (h : Done mode below type c found d) :
    ∃ q ∈ Grammar.qualified, ∃ f : Grammar.TypeForm, found.map (·.kind) = f.kinds q := by
  obtain ⟨isOpened, found₁, _, hopened, h⟩ := h.of_blanks.of_optional
  obtain ⟨q, hq, found₂, _, hname, h⟩ := h.of_name
  obtain ⟨hasInnerBang, found₃, _, hinner, h⟩ := h.of_optional
  obtain ⟨isClosed, found₄, _, hclosed, h⟩ := h.of_blanks.of_optional
  obtain ⟨hasOuterBang, found₅, _, houter, h⟩ := h.of_optional
  have hnone : found₅ = [] := by
    cases h.of_blanks
    rfl
  refine ⟨q, hq, ⟨isOpened, hasInnerBang, isClosed, hasOuterBang⟩, ?_⟩
  rw [hopened, hname, hinner, hclosed, houter, hnone]
  simp [Grammar.TypeForm.kinds]

/-! ## Colons -/

/-- A colon is required, and a type behind it. -/
def awaitsType : Goal → Bool
  | construct (.required .member) | construct (.required .argument) => true
  | _ => false

/-- Behind every goal that awaits a type stand the goals of its signature. -/
def typesFollow : List Goal → Bool
  | [] => true
  | g :: goals => (!g.awaitsType || signature.isPrefixOf goals) && typesFollow goals

theorem typesFollow_append {a b : List Goal} (ha : typesFollow a = true) (hb : typesFollow b = true) :
    typesFollow (a ++ b) = true := by
  induction a with
  | nil => exact hb
  | cons g a ih =>
    simp only [List.cons_append, typesFollow, Bool.and_eq_true, Bool.or_eq_true, List.isPrefixOf_iff_prefix]
      at ha ⊢
    exact ⟨ha.1.imp_right fun h => h.trans (List.prefix_append a b), ih ha.2⟩

theorem typesFollow_definitionRest (k : Keyword) : typesFollow (definitionRest k) = true := by
  cases k <;> decide

theorem typesFollow_of_expand {k : Construct} {next : Option Char} {inner : List Goal}
    (h : k.choose next = .expand inner) : typesFollow inner = true := by
  cases k <;> simp only [Construct.choose] at h <;> (repeat' split at h) <;> cases h <;> rfl

theorem typesFollow_of_take {k : Construct} {next : Option Char} {m : Mark} {inner : List Goal}
    (h : k.choose next = .take m inner) : typesFollow inner = true := by
  cases k <;> simp only [Construct.choose] at h <;> (repeat' split at h) <;> cases h <;> rfl

theorem Becomes.typesFollow {g : Goal} {inner : List Goal} (h : g.Becomes inner) :
    typesFollow inner = true := by
  cases h with
  | done | qualified | again | behind | separated | fixes => rfl
  | following role kind =>
    unfold NameRole.following
    split
    · exact typesFollow_definitionRest _
    · rfl
  | element s fixed =>
    refine typesFollow_append ?_ rfl
    cases s <;> rfl
  | expand hk => exact typesFollow_of_expand hk
  | take hk => exact typesFollow_of_take hk

theorem Turns.typesFollow {before after : List Goal} (h : Turns before after)
    (hbefore : Goal.typesFollow before = true) : Goal.typesFollow after = true := by
  cases h with
  | top => exact hbefore
  | definition hinner => exact hinner.typesFollow
  | inside hinner =>
    simp only [Goal.typesFollow, Bool.and_eq_true] at hbefore
    exact typesFollow_append hinner.typesFollow hbefore.2

end Goal

/-- The construct takes the colon in front of the type of a member or of an argument. -/
def Construct.opensType : Construct → Bool
  | memberRest | required .member | required .argument => true
  | _ => false

namespace State

variable {mode : Mode} {s t : State} {colon : Lexeme}

theorem Visits.typesFollow (h : s.Visits mode t) (hs : Goal.typesFollow s.goals = true) :
    Goal.typesFollow t.goals = true := by
  induction h with
  | refl => exact hs
  | tail _ hstep ih =>
    obtain ⟨found, hstep⟩ := hstep
    exact (turns_of_next hstep).typesFollow ih

/-- The step from the first state to the second takes the colon of a member or of an argument. -/
structure TakesColon (mode : Mode) (s t : State) (colon : Lexeme) : Prop where
  opens : ∃ k goals, s.goals = .construct k :: goals ∧ k.opensType = true
  step : s.step mode = .next [colon] t
  kind : colon.kind = .mark .colon

/-- Behind the colon the goals of a type stand on top of the stack. -/
theorem TakesColon.goals_eq (h : s.TakesColon mode t colon) (hs : Goal.typesFollow s.goals = true) :
    ∃ below, t.goals = Goal.type ++ .construct .defaultValue :: below := by
  obtain ⟨⟨k, goals, hgoals, hk⟩, hstep, hkind⟩ := h
  obtain ⟨c, _⟩ := s
  obtain rfl : _ = Goal.construct k :: goals := hgoals
  simp only [State.step, Step.construct] at hstep
  split at hstep
  · cases hstep
  · rename_i m inner hchoose
    cases hstep
    obtain rfl : m = .colon := Kind.mark.inj hkind
    cases k with
    | memberRest =>
      simp only [Construct.choose] at hchoose
      split at hchoose <;> cases hchoose
      exact ⟨_, rfl⟩
    | required place =>
      have hfollow : Goal.signature <+: goals := by
        simp only [Goal.typesFollow, Bool.and_eq_true, Bool.or_eq_true, Bool.not_eq_true',
          List.isPrefixOf_iff_prefix] at hs
        refine hs.1.resolve_left ?_
        cases place <;> simp_all [Construct.opensType, Goal.awaitsType]
      simp only [Construct.choose] at hchoose
      split at hchoose
      · obtain rfl : [] = inner := (Choice.take.inj hchoose).2
        obtain ⟨below, rfl⟩ := hfollow
        exact ⟨below, by rw [Goal.signature_eq, List.nil_append, List.append_assoc]; rfl⟩
      · cases hchoose
    | _ => cases hk
  · cases hstep

end State

/-- Behind the colon of a member or of an argument the scan finds a name with marks, up to where it looks for
a default value. These tokens are a type in one of the six forms exactly if their brackets have counterparts
and there is no second bang without brackets. -/
theorem Document.types_of_scan {doc after : Document} {source : List UInt8} {mode : Mode}
    {items : List Item} (h : doc.scan source mode = .ok (items, after))
    (hend : items.getLast?.map (·.kind) = some .eof) {s t : State} {colon : Lexeme}
    (hs : (State.initial source).Visits mode s) (hcolon : s.TakesColon mode t colon) :
    ∃ below type d, t.goals = Goal.type ++ .construct .defaultValue :: below ∧
      Goal.Done mode (.construct .defaultValue :: below) Goal.type t.cursor type d ∧
      (colon :: type).map (·.item doc.base) <:+: items ∧
      ∃ q ∈ Grammar.qualified, (∃ f : Grammar.TypeForm, type.map (·.kind) = f.kinds q) ∧
        (type.map (·.kind) ∈ Grammar.typesOf q ↔ Grammar.IsBalanced (type.map (·.kind))) := by
  obtain ⟨rfl, stop, line, hterminal⟩ := Document.trace_of_scan h hend
  obtain ⟨below, hgoals⟩ := hcolon.goals_eq (hs.typesFollow rfl)
  obtain ⟨before, -, hbefore⟩ := hs.leads
  have hleads : (State.initial source).Leads mode (before ++ [colon]) t :=
    hbefore.trans (.of_next hcolon.step)
  have hsource : Trace.ofSource mode source = _ := hleads
  have hleft : (t.trace mode).terminal = .eof stop line := by
    rw [hsource] at hterminal
    exact hterminal
  obtain ⟨type, d, hdone⟩ := Goal.Done.exists_of_eof hleft hgoals
  obtain ⟨q, hq, f, hf⟩ := hdone.type_form
  refine ⟨below, type, d, hgoals, hdone, ?_, q, hq, ⟨f, hf⟩, ?_⟩
  · have htype : t.Leads mode type ⟨d, .construct .defaultValue :: below⟩ := by
      have hleads := hdone.leads
      rwa [← hgoals] at hleads
    have hitems := hleads.trans htype
    refine ⟨before.map (·.item doc.base),
      (State.trace mode ⟨d, .construct .defaultValue :: below⟩).items doc.base, ?_⟩
    rw [Trace.items, Trace.items, show Trace.ofSource mode source = _ from hitems]
    simp
  · rw [hf]
    exact Grammar.kinds_mem_typesOf_iff hq f

/-- The colon of the only member is taken with the tenth step. -/
theorem Document.types_of_scan_list :
    let source := "schema \x7ba:[T]! \x7d".toUTF8.data.toList
    ∃ items after s t colon,
      ({ name := "a", base := 1, size := 16 } : Document).scan source {} = .ok (items, after) ∧
      items.getLast?.map (·.kind) = some .eof ∧ (State.initial source).Visits {} s ∧
      s.TakesColon {} t colon ∧ ∃ below type d, t.goals = Goal.type ++ .construct .defaultValue :: below ∧
        Goal.Done {} (.construct .defaultValue :: below) Goal.type t.cursor type d ∧
        (colon :: type).map (·.item 1) <:+: items ∧
        ∃ q ∈ Grammar.qualified, (∃ f : Grammar.TypeForm, type.map (·.kind) = f.kinds q) ∧
          (type.map (·.kind) ∈ Grammar.typesOf q ↔ Grammar.IsBalanced (type.map (·.kind))) := by
  intro source
  let s := ((State.initial source).walk {} 9).getD ⟨.start [], []⟩
  let t := (s.walk {} 1).getD ⟨.start [], []⟩
  let colon : Lexeme := ⟨.mark .colon, 9, [.scalar ':'], 1⟩
  have hvisits : (State.initial source).Visits {} s :=
    State.visits_of_walk (n := 9) (by decide +kernel)
  have hcolon : s.TakesColon {} t colon :=
    ⟨⟨.memberRest, [.separator .members none], by decide +kernel, rfl⟩, by decide +kernel, rfl⟩
  have hscan : ({ name := "a", base := 1, size := 16 } : Document).scan source {} = .ok (_, _) :=
    if_pos (by decide +kernel)
  have hend : ((Trace.ofSource {} source).items 1).getLast?.map (·.kind) = some .eof := by decide +kernel
  exact ⟨_, _, s, t, colon, hscan, hend, hvisits, hcolon,
    Document.types_of_scan hscan hend hvisits hcolon⟩

end SchemaScan
