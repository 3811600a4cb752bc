import SchemaScan.Scan.Step

/-! # Progress

Every step leaves less to do, so every scan ends. A rune counts for more than all the goals that a
token can bring, and a construct for more than the goals that stand in its place.
-/
namespace SchemaScan

/-- What is left to do in a state. -/
def State.measure (s : State) : Nat :=
  Goal.bound * s.cursor.rest.length + Goal.weights s.goals

namespace Step

/-- The state after the step, if there is one, has less than `n` to do. -/
def Below (n : Nat) : Step → Prop
  | next _ s => s.measure < n
  | halt _ _ => True

theorem below_fail (n : Nat) (f : Fault) (c after : Cursor) : (fail f c after).Below n := trivial

/-- Going on behind a rune makes up for the goals that come in return. -/
theorem below_of_shorter {found : List Lexeme} {c after : Cursor} {goals : List Goal} {n : Nat}
    (new : List Goal) (hr : after.rest.length < c.rest.length) (hw : Goal.weights new < Goal.bound)
    (hn : Goal.bound * c.rest.length + Goal.weights goals ≤ n) :
    (next found ⟨after, new ++ goals⟩).Below n := by
  simp only [Below, State.measure, Goal.weights_append, Goal.bound] at *
  omega

/-- Going on without a rune needs lighter goals. -/
theorem below_of_lighter {found : List Lexeme} {c after : Cursor} {goals : List Goal} {n : Nat}
    (hr : after.rest.length ≤ c.rest.length)
    (hn : Goal.bound * c.rest.length + Goal.weights goals < n) :
    (next found ⟨after, goals⟩).Below n := by
  simp only [Below, State.measure, Goal.bound] at *
  omega

theorem below_mark {m : Mark} {r : Char} {c : Cursor} {goals : List Goal} {n : Nat}
    (new : List Goal) (h : c.peek = some r) (hw : Goal.weights new < Goal.bound)
    (hn : Goal.bound * c.rest.length + Goal.weights goals ≤ n) :
    (mark m c (new ++ goals)).Below n :=
  below_of_shorter new (Cursor.length_next_lt h) hw hn

theorem below_name {role : NameRole} {c : Cursor} {goals : List Goal} {n : Nat}
    (hn : Goal.bound * c.rest.length + Goal.weights goals ≤ n) :
    (name role c goals).Below n := by
  simp only [name]
  by_cases hv : (NameSegment.read c.rest).value = true
  · have hr := NameSegment.length_rest_lt hv
    simp only [hv, Bool.not_true, Bool.false_eq_true, ↓reduceIte]
    split
    · exact below_of_shorter [.name role]
        (by simp only [Cursor.rest_next, Cursor.rest_look, Cursor.rest_advance, List.length_drop]
            omega) (by simp [Goal.weight, Goal.bound]) hn
    · split
      · exact below_fail ..
      · split
        · exact below_of_shorter _ hr (role.weights_following_lt _) hn
        · exact below_of_shorter _ hr (role.weights_following_lt _) hn
  · simp only [Bool.not_eq_true] at hv
    simp only [hv, Bool.not_false, ↓reduceIte]
    exact below_fail ..

theorem below_string {role : StringRole} {c : Cursor} {goals : List Goal} {n : Nat}
    (hn : Goal.bound * c.rest.length + Goal.weights goals ≤ n) :
    (string role c goals).Below n := by
  simp only [string]
  split
  · rename_i hv
    exact below_of_shorter [] (StringLiteral.length_rest_lt hv) (by decide) hn
  · exact below_fail ..

theorem below_number {c : Cursor} {goals : List Goal} {n : Nat}
    (hn : Goal.bound * c.rest.length + Goal.weights goals < n) : (number c goals).Below n := by
  simp only [number]
  split
  · exact below_of_lighter (NumberLiteral.length_rest_le c.rest) hn
  · exact below_fail ..

theorem below_comment {mode : Mode} {c : Cursor} {goals : List Goal} {n : Nat}
    (new : List Goal) (h : c.peek = some '#') (hw : Goal.weights new < Goal.bound)
    (hn : Goal.bound * c.rest.length + Goal.weights goals ≤ n) :
    (comment mode c (new ++ goals)).Below n := by
  have hr := Cursor.length_skip_lt (p := (!isLineEnd ·)) h (by decide)
  simp only [comment]
  split
  · exact below_of_shorter new hr hw hn
  · exact below_of_shorter new hr hw hn

theorem below_leave {s : Series} {r : Char} {c : Cursor} {goals : List Goal} {n : Nat}
    (h : c.peek = some r) (hn : Goal.bound * c.rest.length + Goal.weights goals < n) :
    (leave s c goals).Below n := by
  simp only [leave]
  split
  · exact below_mark [] h (by decide) (Nat.le_of_lt hn)
  · exact below_of_lighter Nat.le.refl hn

/-- Where an element may start, a series weighs less than a rune. -/
theorem weights_elements_lt (s : Series) (fixed : Option Char) :
    Goal.weights [.elements s fixed] < Goal.bound := by
  cases s <;> simp [Goal.weight, Series.weight, Goal.bound]

theorem weights_separator_lt (s : Series) (fixed : Option Char) :
    Goal.weights [.separator s fixed] < Goal.bound := by
  simp [Goal.weight, Goal.bound]

theorem below_elements {mode : Mode} {s : Series} {fixed : Option Char} {c : Cursor}
    {goals : List Goal} :
    (elements mode s fixed c goals).Below
      (Goal.bound * c.rest.length + Goal.weights (.elements s fixed :: goals)) := by
  have hr := Cursor.length_skip_le isSpace c
  simp only [elements]
  split
  · rename_i he
    obtain ⟨r, hp, -⟩ := (Option.any_eq_true _ _).mp he
    refine below_leave hp ?_
    simp only [Goal.weights_cons, Goal.weight, Goal.bound] at *
    omega
  · split
    · rename_i hp
      split
      · refine below_comment [] hp (by decide) ?_
        simp only [Goal.weights_cons, Goal.weight, Goal.bound] at *
        omega
      · refine below_comment [.elements s fixed] hp (weights_elements_lt ..) ?_
        simp only [Goal.weights_cons, Goal.weight, Goal.bound] at *
        omega
    · refine below_of_lighter hr ?_
      simp only [Goal.weights_append, Goal.weights_cons, Goal.weights_element, Goal.weight]
      omega

theorem below_separator {mode : Mode} {s : Series} {fixed : Option Char} {c : Cursor}
    {goals : List Goal} :
    (separator mode s fixed c goals).Below
      (Goal.bound * c.rest.length + Goal.weights (.separator s fixed :: goals)) := by
  have hn : Goal.bound * c.rest.length + Goal.weights goals <
      Goal.bound * c.rest.length + Goal.weights (.separator s fixed :: goals) := by
    simp [Goal.weight]
  simp only [separator]
  split
  · split
    · exact below_of_lighter Nat.le.refl hn
    · exact below_fail ..
  · rename_i r hp
    have hnext := Cursor.length_next_lt hp
    split
    · exact below_of_shorter [.elements s fixed] hnext (weights_elements_lt ..)
        (Nat.le_of_lt hn)
    · split
      · rename_i hb
        have hskip := Cursor.length_skip_lt (p := isBlank) hp hb
        split
        · exact below_of_shorter [.separator s fixed] hskip (weights_separator_lt ..)
            (Nat.le_of_lt hn)
        · split
          · exact below_of_lighter (Nat.le_of_lt hskip) hn
          · exact below_of_shorter [.elements s fixed] hskip (weights_elements_lt ..)
              (Nat.le_of_lt hn)
      · split
        · rename_i hc
          subst hc
          split
          · exact below_fail ..
          · split
            · exact below_comment [.separator s fixed] hp (weights_separator_lt ..)
                (Nat.le_of_lt hn)
            · exact below_of_shorter [.elements s fixed]
                (Cursor.length_skip_lt (p := (!isLineEnd ·)) hp (by decide))
                (weights_elements_lt ..) (Nat.le_of_lt hn)
        · split
          · exact below_leave hp hn
          · split
            · split
              · exact below_fail ..
              · exact below_of_shorter [.elements s (some r)] hnext
                  (weights_elements_lt ..) (Nat.le_of_lt hn)
            · exact below_fail ..

theorem below_construct {k : Construct} {c : Cursor} {goals : List Goal} :
    (construct k c goals).Below
      (Goal.bound * c.rest.length + Goal.weights (.construct k :: goals)) := by
  simp only [construct]
  split
  · rename_i inner h
    have := Construct.weights_lt_of_expand h
    refine below_of_lighter (c := c) Nat.le.refl ?_
    simp only [Goal.weights_append, Goal.weights_cons, Goal.weight]
    omega
  · rename_i m inner h
    refine below_mark inner (Construct.next_of_take h) (Construct.weights_lt_of_take h) ?_
    simp only [Goal.weights_cons, Cursor.rest_look]
    omega
  · exact below_fail ..

theorem below_topLevel {mode : Mode} {c : Cursor} :
    (topLevel mode c).Below (Goal.bound * c.rest.length + Goal.weights []) := by
  simp only [topLevel]
  split
  · trivial
  · rename_i r hp
    split
    · rename_i hs
      exact below_of_shorter [] (Cursor.length_skip_lt hp hs) (by decide) Nat.le.refl
    · split
      · rename_i hc
        subst hc
        exact below_comment [] hp (by decide) Nat.le.refl
      · split
        · exact below_string Nat.le.refl
        · split
          · exact below_name Nat.le.refl
          · exact below_fail ..

end Step

/-- Every step leaves less to do. -/
theorem State.step_below (mode : Mode) (s : State) : (s.step mode).Below s.measure := by
  obtain ⟨c, goals⟩ := s
  have light (g : Goal) (goals : List Goal) (h : 0 < g.weight) :
      Goal.bound * c.rest.length + Goal.weights goals <
        State.measure ⟨c, g :: goals⟩ := by
    simp only [State.measure, Goal.weights_cons]
    omega
  simp only [State.step]
  split
  · exact Step.below_topLevel
  · exact Step.below_of_lighter (Cursor.length_skip_le ..) (light _ _ (by decide))
  · exact Step.below_of_lighter (Cursor.length_skip_le ..) (light _ _ (by decide))
  · exact Step.below_name (Nat.le_of_lt (light _ _ (Nat.zero_lt_one)))
  · exact Step.below_string (Nat.le_of_lt (light _ _ (Nat.zero_lt_one)))
  · exact Step.below_number (light _ _ (by decide))
  · exact Step.below_elements
  · exact Step.below_separator
  · exact Step.below_construct

theorem State.measure_lt_of_next {mode : Mode} {s t : State} {found : List Lexeme}
    (h : s.step mode = .next found t) : t.measure < s.measure := by
  have := s.step_below mode
  rwa [h] at this

end SchemaScan
