import SchemaScan.Schema.Grammar
import SchemaScan.Scan.Goal

/-! # Expectations

A goal stands for the words of the grammar that may be found for it, and a stack of goals for the
words of its goals one behind the other. What a series, a definition or a construct puts in its place
stands for nothing else than it did itself.
-/
namespace SchemaScan

open Computability Grammar

namespace Series

def elementWords : Series → Language Kind
  | importPaths => kind .string
  | interfaces | unionMembers | locations => qualified
  | members => member
  | arguments => argument
  | directives _ => directive
  | directiveArguments | objectFields => field
  | values => Grammar.value

def words (s : Series) : Language Kind :=
  match s.ending with
  | .closing m => s.elementWords∗ * mark m
  | .line _ => s.elementWords∗

theorem mark_mul_words {s : Series} {m : Mark} (h : s.ending = .closing m) (opening : Mark) :
    mark opening * s.words = mark opening * s.elementWords∗ * mark m := by
  rw [words, h, mul_assoc]

theorem words_directives (site : DirectiveSite) : (directives site).words = Grammar.directives := by
  cases site <;> rfl

theorem one_le_words {s : Series} (h : s.endsAtLine = true) : 1 ≤ s.words := by
  rw [endsAtLine] at h
  rw [words]
  cases he : s.ending with
  | closing m =>
    rw [he] at h
    cases h
  | line stops => exact one_le_kstar

/-- An element may stand in front of the rest of its series. -/
theorem elementWords_mul_words (s : Series) : s.elementWords * s.words ≤ s.words := by
  unfold words
  split
  · rw [← mul_assoc]
    gcongr
    exact mul_kstar_le_kstar
  · exact mul_kstar_le_kstar

end Series

def NameRole.words : NameRole → Language Kind
  | definition => Grammar.definition
  | implements => keyword .implements
  | on => keyword .on
  | plain _ => qualified

theorem NameRole.segment_words (role : NameRole) :
    Grammar.name * mark .period * role.words ≤ role.words := by
  cases role with
  | definition => exact segment_definition
  | implements | on | plain => exact segment_qualifier _

def Construct.words : Construct → Language Kind
  | optional m => Grammar.optional (mark m)
  | required place => mark place.mark
  | typeName _ => 1
  | unknown _ => 0
  | imports => kind .string + parenthesized (kind .string)∗
  | directives _ => Grammar.directives
  | typeRest => object
  | afterInterfaces => Grammar.directives * Grammar.body
  | body => Grammar.body
  | unionTypes => Grammar.optional (mark .equals) * qualified∗
  | declaredArguments => Grammar.optional (parenthesized argument∗)
  | memberRest => Grammar.memberRest
  | defaultValue => Grammar.optional (mark .equals * Grammar.value)
  | description => Grammar.optional (kind .description)
  | appliedArguments => Grammar.optional (parenthesized field∗)
  | value => Grammar.value

namespace Goal

@[simp] def words : Goal → Language Kind
  | blanks | space => 1
  | name role => role.words
  | string role => kind role.kind
  | number => kind .int + kind .float
  | elements s _ | separator s _ => s.words
  | construct c => c.words

def allWords : List Goal → Language Kind
  | [] => 1
  | g :: goals => g.words * allWords goals

@[simp] theorem allWords_nil : allWords [] = 1 := rfl
@[simp] theorem allWords_cons (g : Goal) (goals : List Goal) :
    allWords (g :: goals) = g.words * allWords goals := rfl
@[simp] theorem allWords_singleton (g : Goal) : allWords [g] = g.words := mul_one _
@[simp] theorem allWords_append (a b : List Goal) :
    allWords (a ++ b) = allWords a * allWords b := by
  induction a with
  | nil => simp
  | cons g a ih => simp [ih, mul_assoc]

theorem colon_mul_signature : mark .colon * allWords signature = Grammar.signature := by
  simp [signature, Grammar.signature, Construct.words, NameRole.words, mul_assoc]

theorem colon_mul_memberType :
    mark .colon * allWords memberType = Grammar.signature * Grammar.directives := by
  rw [← colon_mul_signature]
  simp [memberType, Construct.words, mul_assoc]

theorem allWords_element (s : Series) : allWords (element s) = s.elementWords := by
  cases s <;>
    simp [element, Series.elementWords, member, argument, directive, field, ← colon_mul_signature,
      Construct.words, NameRole.words, MarkPlace.mark, StringRole.kind, mul_assoc]

/-! ## Definitions -/

/-- A reserved word and what is then expected make a definition. -/
theorem keyword_mul_definitionRest (k : Keyword) :
    keyword k * allWords (definitionRest k) ≤ Grammar.definition := by
  have htype {k : Keyword}
      (hk : keyword k ≤ keyword .type + keyword .interface + keyword .enum + keyword .input) :
      keyword k * qualified * object ≤ Grammar.definition := by
    have h : keyword k * qualified * object ≤
        (keyword .type + keyword .interface + keyword .enum + keyword .input) * qualified * object := by
      gcongr
    exact h.trans fun _ h => definitionRule_le (.inl (.inl (.inl (.inr h))))
  cases k <;>
    simp only [definitionRest, definitionName, List.cons_append, List.nil_append, allWords_cons,
      allWords_nil, words, Construct.words, NameRole.words, MarkPlace.mark, one_mul, mul_one, mul_zero,
      ← mul_assoc]
  case imports => exact fun _ h => definitionRule_le (.inl (.inl (.inl (.inl (.inl (.inl h))))))
  case scalar => exact fun _ h => definitionRule_le (.inl (.inl (.inl (.inl (.inl (.inr h))))))
  case schema => exact fun _ h => definitionRule_le (.inl (.inl (.inl (.inl (.inr h)))))
  case type => exact htype (le_sup_of_le_left (le_sup_of_le_left le_sup_left))
  case interface => exact htype (le_sup_of_le_left (le_sup_of_le_left le_sup_right))
  case enum => exact htype (le_sup_of_le_left le_sup_right)
  case input => exact htype le_sup_right
  case union => exact fun _ h => definitionRule_le (.inl (.inl (.inr h)))
  case directive => exact fun _ h => definitionRule_le (.inl (.inr h))
  case extend => exact fun _ h => definitionRule_le (.inr h)
  all_goals exact bot_le

/-- The word `on` starts no definition. -/
theorem allWords_definitionRest_on : allWords (definitionRest .on) = 0 := by
  simp [definitionRest, definitionName, Construct.words, NameRole.words]

end Goal

/-! ## Constructs -/

/-- How a construct goes on, the mark that it takes included, lies in the language. -/
def Choice.Within (l : Language Kind) : Choice → Prop
  | expand goals => Goal.allWords goals ≤ l
  | take m goals => mark m * Goal.allWords goals ≤ l
  | fail _ => True

namespace Construct

theorem one_le_directives : 1 ≤ Grammar.directives := one_le_kstar

theorem within_typeRest (next : Option Char) : (typeRest.choose next).Within object := by
  simp only [choose]
  split
  · calc keyword .implements * (qualified∗ * (Grammar.directives * Grammar.body * 1))
        = keyword .implements * qualified∗ * Grammar.directives * Grammar.body := by
          simp only [mul_assoc, mul_one]
      _ ≤ object := by
        unfold object
        gcongr
        exact le_optional _
  · calc Grammar.directives * (Grammar.body * 1)
        = Grammar.directives * Grammar.body := by rw [mul_one]
      _ ≤ object := by
        rw [object, mul_assoc]
        exact le_mul_of_one_le_left' (one_le_optional _)

theorem within_memberRest (next : Option Char) :
    (memberRest.choose next).Within Grammar.memberRest := by
  simp only [choose]
  split
  · have h : mark .parenOpen * (Series.arguments.words *
        (1 * (mark .colon * Goal.allWords Goal.memberType))) =
        parenthesized argument∗ * Grammar.signature * Grammar.directives := by
      rw [one_mul, Goal.colon_mul_memberType, ← mul_assoc, ← mul_assoc, Series.mark_mul_words rfl]
      rfl
    exact fun _ hw => .inl (.inl (h.le hw))
  · exact fun _ hw => .inl (.inr (Goal.colon_mul_memberType.le hw))
  · rw [Choice.Within, Goal.allWords_singleton, Goal.words, Series.words_directives]
    exact le_sup_right
  · exact one_le_directives.trans le_sup_right

theorem within_value (next : Option Char) : (value.choose next).Within Grammar.value := by
  simp only [choose]
  split
  · rw [Choice.Within, Goal.allWords_singleton]
    exact fun _ h => valueRule_le (.inl (.inl (.inl (.inl (.inl (.inl h))))))
  · rw [Choice.Within, Goal.allWords_singleton]
    exact fun _ h => valueRule_le (.inl (.inl (.inl (.inl (.inl (.inr h))))))
  · rw [Choice.Within, Goal.allWords_singleton, Goal.words, Series.mark_mul_words rfl]
    exact fun _ h => valueRule_le (.inl (.inr h))
  · rw [Choice.Within, Goal.allWords_singleton, Goal.words, Series.mark_mul_words rfl]
    exact fun _ h => valueRule_le (.inr h)
  · split
    · rw [Choice.Within, Goal.allWords_singleton]
      intro w h
      rcases h with h | h
      · exact valueRule_le (.inl (.inl (.inl (.inl (.inr h)))))
      · exact valueRule_le (.inl (.inl (.inl (.inr h))))
    · split
      · rw [Choice.Within, Goal.allWords_singleton]
        exact fun _ h => valueRule_le (.inl (.inl (.inr h)))
      · trivial
  · trivial

/-- Whatever the next character is, a construct stands for what takes its place. -/
theorem choose_within (c : Construct) (next : Option Char) : (c.choose next).Within c.words := by
  cases c with
  | typeRest => exact within_typeRest next
  | memberRest => exact within_memberRest next
  | value => exact within_value next
  | optional m =>
    simp only [choose]
    split
    · rw [Choice.Within, Goal.allWords_nil, mul_one]
      exact le_optional _
    · exact one_le_optional _
  | required place =>
    simp only [choose]
    split
    · exact (mul_one _).le
    · trivial
  | typeName k =>
    simp only [choose]
    split
    · exact le_rfl
    · trivial
  | unknown k => trivial
  | imports =>
    simp only [choose]
    split
    · rw [Choice.Within, Goal.allWords_singleton]
      exact le_sup_left
    · rw [Choice.Within, Goal.allWords_singleton, Goal.words, Series.mark_mul_words rfl]
      exact le_sup_right
    · trivial
  | directives site =>
    simp only [choose]
    split
    · rw [Choice.Within, Goal.allWords_singleton]
      exact (Series.words_directives site).le
    · exact one_le_directives
  | afterInterfaces =>
    simp only [choose]
    split
    · rw [Choice.Within, Goal.allWords_cons, Goal.allWords_singleton]
      exact le_rfl
    · exact one_le_mul one_le_directives (one_le_optional _)
  | body =>
    simp only [choose]
    split
    · rw [Choice.Within, Goal.allWords_singleton, Goal.words, Series.mark_mul_words rfl]
      exact le_optional _
    · split
      · exact one_le_optional _
      · trivial
    · exact one_le_optional _
  | unionTypes =>
    simp only [choose]
    split
    · exact one_le_mul (one_le_optional _) one_le_kstar
    · rw [Choice.Within, Goal.allWords_cons, Goal.allWords_singleton]
      exact le_rfl
  | declaredArguments | appliedArguments =>
    simp only [choose]
    split
    · rw [Choice.Within, Goal.allWords_singleton, Goal.words, Series.mark_mul_words rfl]
      exact le_optional _
    · exact one_le_optional _
  | defaultValue =>
    simp only [choose]
    split
    · rw [Choice.Within, Goal.allWords_cons, Goal.allWords_singleton, Goal.words, one_mul]
      exact le_optional _
    · exact one_le_optional _
  | description =>
    simp only [choose]
    split
    · rw [Choice.Within, Goal.allWords_cons, Goal.allWords_singleton]
      exact (mul_one _).le.trans (le_optional _)
    · exact one_le_optional _

end Construct

end SchemaScan
