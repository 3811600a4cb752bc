import SchemaScan.Proofs.Scan.Turns

/-! # Marks that no goal takes

The marks that separate elements are passed over, and a period is taken together with the segment of a name
in front of it. No goal takes one of them by itself, so that the first token a step finds is none of them.
-/
namespace SchemaScan

/-- A period, or a mark that separates elements. -/
def Kind.isIdle : Kind → Bool
  | mark .period | mark .ampersand | mark .pipe | mark .comma => true
  | _ => false

/-- The goal takes such a mark by itself. -/
def Goal.takesIdle : Goal → Bool
  | construct (.optional m) => (Kind.mark m).isIdle
  | _ => false

namespace Goal

theorem takesIdle_definitionRest (k : Keyword) : ∀ g ∈ definitionRest k, g.takesIdle = false := by
  cases k <;> simp [definitionRest, definitionName, takesIdle]

theorem Becomes.takesIdle {g : Goal} {inner : List Goal} (h : g.Becomes inner) :
    ∀ x ∈ inner, x.takesIdle = false := by
  cases h with
  | done | qualified | again | behind | separated | fixes => simp [Goal.takesIdle]
  | following role kind =>
    unfold NameRole.following
    split
    · exact takesIdle_definitionRest _
    · exact List.forall_mem_nil _
  | element s fixed => cases s <;> simp [Goal.element, signature, Goal.takesIdle, Kind.isIdle]
  | @expand k _ _ hk =>
    cases k <;> simp only [Construct.choose] at hk <;> (repeat' split at hk) <;> cases hk <;>
      simp [Goal.takesIdle, Kind.isIdle]
  | @take k _ _ _ hk =>
    cases k <;> simp only [Construct.choose] at hk <;> (repeat' split at hk) <;> cases hk <;>
      simp [Goal.takesIdle, Kind.isIdle, memberType, signature]

end Goal

theorem Construct.isIdle_of_take {k : Construct} {next : Option Char} {m : Mark} {inner : List Goal}
    (h : k.choose next = .take m inner) (hk : (Goal.construct k).takesIdle = false) :
    (Kind.mark m).isIdle = false := by
  cases k with
  | optional m' =>
    simp only [choose] at h
    split at h <;> cases h
    exact hk
  | required place =>
    simp only [choose] at h
    split at h
    · obtain rfl : place.mark = m := (Choice.take.inj h).1
      cases place <;> rfl
    · cases h
  | _ =>
    simp only [choose] at h
    (repeat' split at h) <;> cases h <;> rfl

theorem Series.isIdle_of_ending {s : Series} {m : Mark} (h : s.ending = .closing m) :
    (Kind.mark m).isIdle = false := by
  cases s with
  | directives site => cases site <;> cases h
  | _ => cases h <;> rfl

theorem Kind.isIdle_ofName (text : String) : (ofName text).isIdle = false := by
  unfold ofName
  split <;> rfl

/-- The first of the kinds is no such mark, and behind it there are none but periods. -/
def Kind.SpareIdle : List Kind → Prop
  | [] => True
  | k :: found => k.isIdle = false ∧ ∀ other ∈ found, other = .mark .period

/-- So it is with the tokens that the step finds. -/
def Step.SparesIdle : Step → Prop
  | next found _ => Kind.SpareIdle (found.map (·.kind))
  | halt _ _ => True

namespace Goal

theorem Yields.spareIdle {g : Goal} {found : List Kind} {inner : List Goal} (h : g.Yields found inner)
    (hg : g.takesIdle = false) : Kind.SpareIdle found := by
  cases h with
  | qualified role text => exact ⟨Kind.isIdle_ofName text, List.forall_mem_singleton.mpr rfl⟩
  | @name _ text _ => exact ⟨Kind.isIdle_ofName text, List.forall_mem_nil _⟩
  | string role => exact ⟨by cases role <;> rfl, List.forall_mem_nil _⟩
  | number h => exact ⟨by obtain rfl | rfl := NumberLiteral.kind_of_read h <;> rfl, List.forall_mem_nil _⟩
  | closes _ h => exact ⟨Series.isIdle_of_ending h, List.forall_mem_nil _⟩
  | take h => exact ⟨Construct.isIdle_of_take h hg, List.forall_mem_nil _⟩
  | _ => trivial

theorem Finds.spareIdle {before after : List Goal} {found : List Kind} (h : Finds before found after)
    (hbefore : ∀ g ∈ before, g.takesIdle = false) : Kind.SpareIdle found := by
  cases h with
  | top => trivial
  | string | comment => exact ⟨rfl, List.forall_mem_nil _⟩
  | definition h => exact h.spareIdle rfl
  | inside h => exact h.spareIdle (hbefore _ List.mem_cons_self)

end Goal

namespace State

theorem takesIdle_of_next {mode : Mode} {s t : State} {found : List Lexeme}
    (h : s.step mode = .next found t) (hs : ∀ g ∈ s.goals, g.takesIdle = false) :
    ∀ g ∈ t.goals, g.takesIdle = false :=
  (turns_of_next h).forall_mem (p := (·.takesIdle = false)) rfl (fun hinner _ => hinner.takesIdle) hs

theorem Makes.sparesIdle {mode : Mode} {s : State} {step : Step} (h : s.Makes mode step)
    (hs : ∀ g ∈ s.goals, g.takesIdle = false) : step.SparesIdle := by
  cases h with
  | ends | fails | loses => trivial
  | goes _ _ _ hfinds => exact hfinds.spareIdle hs

/-- Where no goal takes such a mark, none is found first. -/
theorem step_sparesIdle (mode : Mode) {s : State} (hs : ∀ g ∈ s.goals, g.takesIdle = false) :
    (s.step mode).SparesIdle := (s.step_makes mode).sparesIdle hs

end State

end SchemaScan
