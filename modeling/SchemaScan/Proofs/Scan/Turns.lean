import SchemaScan.Proofs.Scan.Steps

/-! # What goals turn into

A step works on the topmost goal only. Other goals may come to stand in its place; those below it stay
as they are. With an empty stack a step may take the first word of a definition. What is true of the
goals of a scan follows from the few forms that this can take.
-/
namespace SchemaScan

namespace Goal

/-- What may stand in the place of a goal after a step. -/
inductive Becomes : Goal → List Goal → Prop
  | done (g : Goal) : Becomes g []
  /-- A segment that qualifies the name has been taken. -/
  | qualified (role : NameRole) : Becomes (.name role) [.name role]
  | following (role : NameRole) (kind : Kind) : Becomes (.name role) (role.following kind)
  /-- A comment has been taken. -/
  | again (s : Series) (fixed : Option Char) : Becomes (.elements s fixed) [.elements s fixed]
  | element (s : Series) (fixed : Option Char) :
    Becomes (.elements s fixed) (Goal.element s ++ [.separator s fixed])
  /-- Blanks or a comment have been taken. -/
  | behind (s : Series) (fixed : Option Char) : Becomes (.separator s fixed) [.separator s fixed]
  | separated (s : Series) (fixed : Option Char) : Becomes (.separator s fixed) [.elements s fixed]
  | fixes {s : Series} {x : Char} (h : x ∈ s.separators) (fixed : Option Char) :
    Becomes (.separator s fixed) [.elements s (some x)]
  | expand {k : Construct} {next : Option Char} {inner : List Goal} (h : k.choose next = .expand inner) :
    Becomes (.construct k) inner
  | take {k : Construct} {next : Option Char} {m : Mark} {inner : List Goal}
    (h : k.choose next = .take m inner) : Becomes (.construct k) inner

/-- What the goals of a state may be after a step. -/
inductive Turns : List Goal → List Goal → Prop
  | top : Turns [] []
  | definition {inner : List Goal} (h : Becomes (.name .definition) inner) : Turns [] inner
  | inside {g : Goal} {inner goals : List Goal} (h : g.Becomes inner) :
    Turns (g :: goals) (inner ++ goals)

/-- What is true of the first word of a definition, and passes from every goal to those in its place, stays true
of all goals. -/
theorem Turns.forall_mem {p : Goal → Prop} (hname : p (.name .definition))
    (hp : ∀ {g inner}, Becomes g inner → p g → ∀ x ∈ inner, p x) {before after : List Goal}
    (h : Turns before after) (hbefore : ∀ g ∈ before, p g) : ∀ g ∈ after, p g := by
  cases h with
  | top => exact hbefore
  | definition hinner => exact hp hinner hname
  | inside hinner =>
    obtain ⟨hg, hgoals⟩ := List.forall_mem_cons.mp hbefore
    exact List.forall_mem_append.mpr ⟨hp hinner hg, hgoals⟩

end Goal

open Goal

namespace Step

/-- If the step goes on, the condition holds of the goals it leaves. -/
def Leaves (p : List Goal → Prop) : Step → Prop
  | next _ t => p t.goals
  | halt _ _ => True

end Step

theorem Goal.Yields.becomes {g : Goal} {found : List Kind} {inner : List Goal}
    (h : g.Yields found inner) : g.Becomes inner := by
  cases h with
  | blanks | space | string | number | closes | ends => exact .done _
  | qualified role => exact .qualified role
  | name => exact .following _ _
  | lost => exact .following .definition (.keyword .on)
  | again s fixed => exact .again s fixed
  | element s fixed => exact .element s fixed
  | behind s fixed => exact .behind s fixed
  | separated s fixed => exact .separated s fixed
  | fixes h fixed => exact .fixes h fixed
  | expand h => exact .expand h
  | take h => exact .take h

theorem Goal.Finds.turns {before after : List Goal} {found : List Kind} (h : Finds before found after) :
    Turns before after := by
  induction h with
  | top | string => exact .top
  | definition h => exact .definition h.becomes
  | inside h => exact .inside h.becomes
  | comment _ ih => exact ih

namespace State

theorem Makes.leaves {mode : Mode} {s : State} {step : Step} (h : s.Makes mode step) :
    step.Leaves (Turns s.goals) := by
  cases h with
  | ends | fails => trivial
  | goes _ _ _ hfinds | loses _ hfinds => exact hfinds.turns

theorem step_leaves (mode : Mode) (s : State) : (s.step mode).Leaves (Turns s.goals) :=
  (s.step_makes mode).leaves

/-- A step turns the goals of its state into those of the next one. -/
theorem turns_of_next {mode : Mode} {s t : State} {found : List Lexeme}
    (h : s.step mode = .next found t) : Turns s.goals t.goals := by
  have hs := s.step_leaves mode
  rwa [h] at hs

end State

end SchemaScan
