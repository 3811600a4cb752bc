import SchemaScan.Proofs.Scan.Spans

/-! # How tokens are read

Every token of a scan is what a recogniser takes from the front of the source that is left where the token
starts: a mark, a segment of a name, a string, a number or a comment.
-/
namespace SchemaScan

/-- The token is read behind the cursor. -/
def Lexeme.IsReadBehind (l : Lexeme) (mode : Mode) (c : Cursor) : Prop :=
  ∃ before d, c.Crosses before d ∧ l.start = d.offset ∧ Takes mode d.rest l.kind l.runes

theorem Lexeme.IsReadBehind.of_crosses {l : Lexeme} {mode : Mode} {c d : Cursor} {taken : List Rune}
    (hx : c.Crosses taken d) (h : l.IsReadBehind mode d) : l.IsReadBehind mode c := by
  obtain ⟨before, e, he, hstart, htakes⟩ := h
  exact ⟨_, e, hx.trans he, hstart, htakes⟩

theorem TakesAll.readBehind {mode : Mode} {c d : Cursor} {found : List Lexeme}
    (h : TakesAll mode c found d) : ∀ l ∈ found, l.IsReadBehind mode c := by
  induction h with
  | nil c => exact List.forall_mem_nil _
  | @cons c _ _ _ _ _ htakes hx _ ih =>
    refine List.forall_mem_cons.mpr ⟨⟨[], c, .refl c, rfl, htakes⟩, fun l hl => ?_⟩
    exact (ih l hl).of_crosses hx.crosses

/-- What the step finds is read behind the cursor. -/
def Step.ReadsBehind (mode : Mode) (c : Cursor) : Step → Prop
  | next found _ => ∀ l ∈ found, l.IsReadBehind mode c
  | halt _ _ => True

namespace State

theorem Makes.readsBehind {mode : Mode} {s : State} {step : Step} (h : s.Makes mode step) :
    step.ReadsBehind mode s.cursor := by
  cases h with
  | ends | fails => trivial
  | goes hskips _ htakes _ =>
    obtain ⟨-, dropped, hx, -⟩ := hskips
    exact fun l hl => (htakes.readBehind l hl).of_crosses hx
  | loses => exact List.forall_mem_nil _

theorem step_readsBehind (mode : Mode) (s : State) : (s.step mode).ReadsBehind mode s.cursor :=
  (s.step_makes mode).readsBehind

theorem trace_readBehind (mode : Mode) (s : State) :
    ∀ l ∈ (s.trace mode).lexemes, l.IsReadBehind mode s.cursor := by
  fun_induction State.trace mode s with
  | case1 => exact List.forall_mem_nil _
  | case2 s found t h rest ih =>
    have hfound := s.step_readsBehind mode
    have hfrom := s.step_from mode
    rw [h] at hfound hfrom
    obtain ⟨taken, hx⟩ := Passage.crosses hfrom
    intro l hl
    rcases List.mem_append.mp hl with hl | hl
    · exact hfound l hl
    · exact (ih l hl).of_crosses hx

end State

/-- Every token of a source stands where the runes before it end and takes what a recogniser takes there. -/
theorem Trace.exists_takes {mode : Mode} {source : List UInt8} {l : Lexeme}
    (h : l ∈ (ofSource mode source).lexemes) :
    ∃ before rest, Rune.read source = before ++ rest ∧ l.start = Rune.span before ∧
      Takes mode rest l.kind l.runes := by
  obtain ⟨first, hinit⟩ := State.initial_crosses source
  obtain ⟨before, d, hx, hstart, htakes⟩ := (State.trace_readBehind mode _ l h).of_crosses hinit
  refine ⟨before, d.rest, hx.rest, ?_, htakes⟩
  rw [hstart, hx.offset]
  exact Nat.zero_add _

end SchemaScan
