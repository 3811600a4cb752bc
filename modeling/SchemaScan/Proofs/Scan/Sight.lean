import SchemaScan.Proofs.Scan.Spans

/-! # How far a scan has read

A step reads at least up to the place where it stood, and what has been read stays read. So all that lies
before a token, or before the place where the scan ends, has been read when it is found.
-/
namespace SchemaScan

/-- The step reads on from the cursor, and has read what lies before all that it finds. -/
def Step.Sees (c : Cursor) : Step → Prop
  | next found s => c.Sights s.cursor ∧ ∀ l ∈ found, l.start ≤ s.cursor.seen
  | halt terminal d => c.Sights d ∧ terminal.start ≤ d.seen

theorem TakesAll.start_le {mode : Mode} {c d : Cursor} {found : List Lexeme}
    (h : TakesAll mode c found d) : c.seen ≤ d.seen ∧ ∀ l ∈ found, l.start ≤ d.seen := by
  induction h with
  | nil c => exact ⟨Nat.le_refl _, List.forall_mem_nil _⟩
  | cons _ hx _ ih =>
    obtain ⟨hle, hfound⟩ := ih
    exact ⟨Nat.le_trans hx.sights.seen hle,
      List.forall_mem_cons.mpr ⟨Nat.le_trans hx.sights.offset hle, hfound⟩⟩

namespace State

theorem Makes.sees {mode : Mode} {s : State} {step : Step} (h : s.Makes mode step) :
    step.Sees s.cursor := by
  cases h with
  | ends => exact ⟨s.cursor.sights_look, s.cursor.sights_look.offset⟩
  | fails f hx => exact ⟨hx.sights, hx.sights.offset⟩
  | goes _ hsights htakes _ => exact ⟨hsights, htakes.start_le.2⟩
  | loses hx _ => exact ⟨hx.sights, List.forall_mem_nil _⟩

theorem step_sees (mode : Mode) (s : State) : (s.step mode).Sees s.cursor := (s.step_makes mode).sees

/-- At the end of a scan all that lies before its end has been read. -/
theorem start_le_seen (mode : Mode) (s : State) : (s.trace mode).terminal.start ≤ (s.trace mode).seen := by
  fun_induction State.trace mode s with
  | case1 s terminal c h =>
    have hsees := s.step_sees mode
    rw [h] at hsees
    exact hsees.2
  | case2 s found t h rest ih => exact ih

end State

end SchemaScan
