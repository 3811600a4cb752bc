import SchemaScan.Schema.Grammar

/-! # Nesting

In a word of the grammar parentheses and braces are nested. A stretch of tokens is neutral if it leaves
what is pending as it was; the rules make neutral stretches of neutral ones.
-/
namespace SchemaScan.Grammar

open Computability

/-- The stretches that can be left out of every sequence of tokens. -/
def neutral : Language Kind :=
  {w | ∀ pending rest, nests pending (w ++ rest) = nests pending rest}

theorem nests_of_mem_neutral {w : List Kind} (h : w ∈ neutral) : nests [] w = true := by
  have := h [] []
  rwa [List.append_nil] at this

theorem one_le_neutral : 1 ≤ neutral := by
  rintro w rfl pending rest
  rfl

theorem neutral_mul {a b : Language Kind} (ha : a ≤ neutral) (hb : b ≤ neutral) :
    a * b ≤ neutral := by
  intro w hw
  obtain ⟨u, hu, v, hv, rfl⟩ := Language.mem_mul.mp hw
  intro pending rest
  rw [List.append_assoc, ha hu, hb hv]

theorem neutral_add {a b : Language Kind} (ha : a ≤ neutral) (hb : b ≤ neutral) :
    a + b ≤ neutral := sup_le ha hb

theorem neutral_star {a : Language Kind} (h : a ≤ neutral) : a∗ ≤ neutral :=
  kstar_le_of_mul_le_left one_le_neutral (neutral_mul le_rfl h)

theorem neutral_optional {a : Language Kind} (h : a ≤ neutral) : optional a ≤ neutral :=
  neutral_add one_le_neutral h

/-- A token that neither opens nor closes. -/
theorem neutral_kind {k : Kind} (ho : closing? k = none) (hc : isClosing k = false) :
    kind k ≤ neutral := by
  rintro w rfl pending rest
  rw [List.singleton_append, nests_neither ho hc]

theorem neutral_enclosed {opening closing : Mark} {a : Language Kind} (h : a ≤ neutral)
    (ho : closing? (.mark opening) = some closing) (hn : closing? (.mark closing) = none)
    (hc : isClosing (.mark closing) = true) : mark opening * a * mark closing ≤ neutral := by
  intro w hw
  obtain ⟨_, hu, _, rfl, rfl⟩ := Language.mem_mul.mp hw
  obtain ⟨_, rfl, v, hv, rfl⟩ := Language.mem_mul.mp hu
  intro pending rest
  rw [List.append_assoc, List.append_assoc, List.singleton_append, nests_opening ho, h hv,
    List.singleton_append, nests_closing hn hc]

theorem neutral_parenthesized {a : Language Kind} (h : a ≤ neutral) : parenthesized a ≤ neutral :=
  neutral_enclosed h rfl rfl rfl

theorem neutral_braced {a : Language Kind} (h : a ≤ neutral) : braced a ≤ neutral :=
  neutral_enclosed h rfl rfl rfl

theorem neutral_name : name ≤ neutral := by
  rintro w ⟨k, rfl, hk⟩
  have hneither : closing? k = none ∧ isClosing k = false := by
    cases k with
    | ident => exact ⟨rfl, rfl⟩
    | keyword k => exact ⟨rfl, rfl⟩
    | _ => simp [Kind.isKeyword] at hk
  exact neutral_kind hneither.1 hneither.2 rfl

theorem neutral_qualifier : qualifier ≤ neutral :=
  neutral_star (neutral_mul neutral_name (neutral_kind rfl rfl))

theorem neutral_qualified : qualified ≤ neutral := neutral_mul neutral_qualifier neutral_name

theorem neutral_keyword (k : Keyword) : keyword k ≤ neutral :=
  neutral_mul neutral_qualifier (neutral_kind rfl rfl)

theorem neutral_value : value ≤ neutral := by
  apply value_le
  have hlist : mark .bracketOpen * neutral∗ * mark .bracketClose ≤ neutral :=
    neutral_mul (neutral_mul (neutral_kind rfl rfl) (neutral_star le_rfl)) (neutral_kind rfl rfl)
  have hobject : braced (qualified * mark .colon * neutral)∗ ≤ neutral :=
    neutral_braced (neutral_star
      (neutral_mul (neutral_mul neutral_qualified (neutral_kind rfl rfl)) le_rfl))
  have hvariable : mark .dollar * qualified ≤ neutral :=
    neutral_mul (neutral_kind rfl rfl) neutral_qualified
  have hliteral : mark .dollar * qualified + kind .string + kind .int + kind .float ≤ neutral :=
    neutral_add (neutral_add (neutral_add hvariable (neutral_kind rfl rfl)) (neutral_kind rfl rfl))
      (neutral_kind rfl rfl)
  exact neutral_add (neutral_add (neutral_add hliteral neutral_qualified) hlist) hobject

theorem neutral_directives : directives ≤ neutral := by
  have hfield : field ≤ neutral :=
    neutral_mul (neutral_mul neutral_qualified (neutral_kind rfl rfl)) neutral_value
  refine neutral_star (neutral_mul (neutral_mul (neutral_kind rfl rfl) neutral_qualified) ?_)
  exact neutral_optional (neutral_parenthesized (neutral_star hfield))

theorem neutral_signature : signature ≤ neutral := by
  have hmark {m : Mark} (ho : closing? (.mark m) = none) (hc : isClosing (.mark m) = false) :
      optional (mark m) ≤ neutral := neutral_optional (neutral_kind ho hc)
  have hdefault : optional (mark .equals * value) ≤ neutral :=
    neutral_optional (neutral_mul (neutral_kind rfl rfl) neutral_value)
  have htype : mark .colon * optional (mark .bracketOpen) * qualified ≤ neutral :=
    neutral_mul (neutral_mul (neutral_kind rfl rfl) (hmark rfl rfl)) neutral_qualified
  exact neutral_mul (neutral_mul (neutral_mul (neutral_mul htype (hmark rfl rfl)) (hmark rfl rfl))
    (hmark rfl rfl)) hdefault

theorem neutral_argument : argument ≤ neutral :=
  neutral_mul (neutral_mul (neutral_mul (neutral_optional (neutral_kind rfl rfl)) neutral_qualified)
    neutral_signature) neutral_directives

theorem neutral_member : member ≤ neutral := by
  have htyped : signature * directives ≤ neutral := neutral_mul neutral_signature neutral_directives
  have harguments : parenthesized argument∗ * signature * directives ≤ neutral := by
    rw [mul_assoc]
    exact neutral_mul (neutral_parenthesized (neutral_star neutral_argument)) htyped
  exact neutral_mul (neutral_mul (neutral_optional (neutral_kind rfl rfl)) neutral_qualified)
    (neutral_add (neutral_add harguments htyped) neutral_directives)

theorem neutral_object : object ≤ neutral := by
  have hinterfaces : optional (keyword .implements * qualified∗) ≤ neutral :=
    neutral_optional (neutral_mul (neutral_keyword _) (neutral_star neutral_qualified))
  exact neutral_mul (neutral_mul hinterfaces neutral_directives)
    (neutral_optional (neutral_braced (neutral_star neutral_member)))

theorem neutral_definition : definition ≤ neutral := by
  apply definition_le
  have hstring : kind .string ≤ neutral := neutral_kind rfl rfl
  refine neutral_add (neutral_add (neutral_add (neutral_add (neutral_add (neutral_add ?_ ?_) ?_) ?_)
    ?_) ?_) ?_
  · exact neutral_mul (neutral_keyword _)
      (neutral_add hstring (neutral_parenthesized (neutral_star hstring)))
  · exact neutral_mul (neutral_mul (neutral_keyword _) neutral_qualified) neutral_directives
  · exact neutral_mul (neutral_keyword _) neutral_object
  · refine neutral_mul (neutral_mul ?_ neutral_qualified) neutral_object
    exact neutral_add (neutral_add (neutral_add (neutral_keyword _) (neutral_keyword _))
      (neutral_keyword _)) (neutral_keyword _)
  · refine neutral_mul (neutral_mul ?_ (neutral_optional (neutral_kind rfl rfl)))
      (neutral_star neutral_qualified)
    exact neutral_mul (neutral_mul (neutral_keyword _) neutral_qualified) neutral_directives
  · have hdeclared : keyword .directive * mark .at * qualified ≤ neutral :=
      neutral_mul (neutral_mul (neutral_keyword _) (neutral_kind rfl rfl)) neutral_qualified
    have harguments : optional (parenthesized argument∗) ≤ neutral :=
      neutral_optional (neutral_parenthesized (neutral_star neutral_argument))
    exact neutral_mul (neutral_mul (neutral_mul hdeclared harguments) (neutral_keyword _))
      (neutral_star neutral_qualified)
  · exact neutral_mul (neutral_keyword _) le_rfl

/-- Parentheses and braces are nested in the stream of every document. -/
theorem nests_of_mem_document {w : List Kind} (h : w ∈ document) : nests [] w = true := by
  have hentries : entries ≤ neutral :=
    neutral_star (neutral_add (neutral_kind rfl rfl) neutral_definition)
  exact nests_of_mem_neutral (neutral_mul hentries (neutral_kind rfl rfl) h)

end SchemaScan.Grammar
