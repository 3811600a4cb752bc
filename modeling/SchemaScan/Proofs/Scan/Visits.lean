import Mathlib.Logic.Relation
import SchemaScan.Proofs.Scan.Turns
import SchemaScan.Proofs.Schema.Reads

/-! # The states that a scan visits

What a scan does at one place of a source depends on the state in which it gets there. A scan that visits
a state has found the tokens in front of it, and from then on it is the scan from that state. In every
state that is visited, a series has been found to use one of its own separators.
-/
namespace SchemaScan

namespace State

/-- One step leads from the state to the other. -/
def StepsTo (mode : Mode) (s t : State) : Prop := ∃ found, s.step mode = .next found t

/-- The scan that goes on from the state comes to the other. -/
def Visits (mode : Mode) : State → State → Prop := Relation.ReflTransGen (StepsTo mode)

/-- The state after a number of steps. -/
def walk (mode : Mode) : Nat → State → Option State
  | 0, s => some s
  | n + 1, s =>
    match s.step mode with
    | .next _ t => t.walk mode n
    | .halt _ _ => none

theorem exists_of_isBehindElement {s : State} (h : s.isBehindElement = true) :
    ∃ c series fixed goals, s = ⟨c, .separator series fixed :: goals⟩ ∧ series.endsAtLine = false := by
  obtain ⟨c, goals⟩ := s
  unfold isBehindElement at h
  split at h
  · rename_i series fixed goals hg
    obtain rfl : _ = Goal.separator series fixed :: goals := hg
    exact ⟨c, series, fixed, goals, rfl, by simpa using h⟩
  · cases h

variable {mode : Mode} {s t : State}

theorem visits_of_walk {n : Nat} (h : s.walk mode n = some t) : s.Visits mode t := by
  induction n generalizing s with
  | zero =>
    cases h
    exact .refl
  | succ n ih =>
    simp only [walk] at h
    split at h
    · rename_i hstep
      exact .head ⟨_, hstep⟩ (ih h)
    · cases h

/-- Behind an element a comment is passed over, unless a comma has been seen. -/
theorem step_separator_comment {c : Cursor} {series : Series} {fixed : Option Char}
    {goals : List Goal} (hs : series.endsAtLine = false) (hfixed : fixed ≠ some '#')
    (hp : c.peek = some '#') : State.step mode ⟨c, .separator series fixed :: goals⟩ =
      if fixed = some ',' then Step.fail .commentBeforeComma c.look c.look.next
      else .next [] ⟨c.look.skip (!isLineEnd ·), .elements series fixed :: goals⟩ := by
  have hblank : isBlank '#' = false := rfl
  simp [step, Step.separator, hp, hfixed, hblank, hs]

/-- The scan from a state that is visited is the end of the whole scan. -/
theorem Visits.leads (h : s.Visits mode t) :
    ∃ found, Passage s.cursor found t.cursor ∧ s.Leads mode found t := by
  induction h using Relation.ReflTransGen.head_induction_on with
  | refl => exact ⟨[], .refl _, .refl _⟩
  | @head s u hstep _ ih =>
    obtain ⟨found, hstep⟩ := hstep
    obtain ⟨more, hp, hleads⟩ := ih
    have hfrom := s.step_from mode
    rw [hstep] at hfrom
    exact ⟨found ++ more, Passage.append hfrom hp, (Leads.of_next hstep).trans hleads⟩

end State

/-! ## Separators -/

namespace Goal

@[simp] theorem allKeep_nil : AllKeep [] := List.forall_mem_nil _
@[simp] theorem allKeep_cons {g : Goal} {goals : List Goal} :
    AllKeep (g :: goals) ↔ g.Keeps ∧ AllKeep goals := List.forall_mem_cons
@[simp] theorem allKeep_append {a b : List Goal} : AllKeep (a ++ b) ↔ AllKeep a ∧ AllKeep b :=
  List.forall_mem_append

@[simp] theorem keeps_separator {s : Series} {fixed : Option Char} :
    (separator s fixed).Keeps ↔ ∀ x, fixed = some x → x ∈ s.separators := Iff.rfl

theorem allKeep_element (s : Series) : AllKeep (element s) := by
  cases s <;> simp [element, signature, Keeps]

theorem allKeep_definitionRest (k : Keyword) : AllKeep (definitionRest k) := by
  cases k <;> simp [definitionRest, definitionName, Keeps, Series.separators]

end Goal

namespace Construct

theorem allKeep_of_expand {c : Construct} {next : Option Char} {goals : List Goal}
    (h : c.choose next = .expand goals) : Goal.AllKeep goals := by
  cases c <;> simp only [choose] at h <;> (repeat' split at h) <;> cases h <;>
    simp [Goal.Keeps, Series.separators]

theorem allKeep_of_take {c : Construct} {next : Option Char} {m : Mark} {goals : List Goal}
    (h : c.choose next = .take m goals) : Goal.AllKeep goals := by
  cases c <;> simp only [choose] at h <;> (repeat' split at h) <;> cases h <;>
    simp [Goal.Keeps, Series.separators, Goal.memberType, Goal.signature]

end Construct

theorem NameRole.allKeep_following (role : NameRole) (kind : Kind) :
    Goal.AllKeep (role.following kind) := by
  unfold following
  split
  · exact Goal.allKeep_definitionRest _
  · exact Goal.allKeep_nil

/-- What stands in the place of a goal keeps to the separators that the goal keeps to. -/
theorem Goal.Becomes.allKeep {g : Goal} {inner : List Goal} (h : g.Becomes inner) (hg : g.Keeps) :
    AllKeep inner := by
  cases h with
  | done | qualified => simp [Keeps]
  | following role kind => exact role.allKeep_following kind
  | again | behind | separated => exact allKeep_cons.mpr ⟨hg, allKeep_nil⟩
  | element s fixed =>
    exact allKeep_append.mpr ⟨allKeep_element s, allKeep_cons.mpr ⟨hg, allKeep_nil⟩⟩
  | fixes hx =>
    refine allKeep_cons.mpr ⟨?_, allKeep_nil⟩
    rintro x ⟨rfl⟩
    exact hx
  | expand hk => exact Construct.allKeep_of_expand hk
  | take hk => exact Construct.allKeep_of_take hk

theorem Goal.Turns.allKeep {before after : List Goal} (h : Turns before after)
    (hbefore : AllKeep before) : AllKeep after :=
  h.forall_mem trivial (fun hinner hg => hinner.allKeep hg) hbefore

namespace State

variable {mode : Mode} {s t : State}

theorem StepsTo.keeps (h : s.StepsTo mode t) (hs : Goal.AllKeep s.goals) : Goal.AllKeep t.goals := by
  obtain ⟨found, hstep⟩ := h
  exact (turns_of_next hstep).allKeep hs

theorem Visits.keeps (h : s.Visits mode t) (hs : Goal.AllKeep s.goals) : Goal.AllKeep t.goals := by
  induction h with
  | refl => exact hs
  | tail _ hstep ih => exact hstep.keeps ih

theorem initial_keeps (source : List UInt8) : Goal.AllKeep (initial source).goals :=
  Goal.allKeep_nil

end State

end SchemaScan
