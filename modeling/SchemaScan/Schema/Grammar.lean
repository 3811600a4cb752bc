import SchemaScan.Token.Kind
import Mathlib.Computability.Language
import Mathlib.Order.FixedPoints
import Mathlib.Order.CompletePartialOrder

/-! # The grammar of token streams

The kinds of the tokens of a document form a word of the language `document`. Each construct has its
rule. Values and definitions occur in their own rules; their languages are the least ones that satisfy
these.
-/
namespace SchemaScan.Grammar

open Computability

def kind (k : Kind) : Language Kind := {[k]}

def mark (m : Mark) : Language Kind := kind (.mark m)

def optional (l : Language Kind) : Language Kind := 1 + l

def parenthesized (l : Language Kind) : Language Kind := mark .parenOpen * l * mark .parenClose

def braced (l : Language Kind) : Language Kind := mark .braceOpen * l * mark .braceClose

theorem one_le_optional (l : Language Kind) : 1 ≤ optional l := le_sup_left

theorem le_optional (l : Language Kind) : l ≤ optional l := le_sup_right

/-! ## Names -/

/-- One segment of a name; a reserved word may be one. -/
def name : Language Kind := {w | ∃ k : Kind, w = [k] ∧ (k = .ident ∨ k.isKeyword = true)}

def qualifier : Language Kind := (name * mark .period)∗

def qualified : Language Kind := qualifier * name

/-- A name whose last segment is the reserved word. -/
def keyword (k : Keyword) : Language Kind := qualifier * kind (.keyword k)

theorem name_le_qualified : name ≤ qualified := le_mul_of_one_le_left' one_le_kstar

theorem kind_le_keyword (k : Keyword) : kind (.keyword k) ≤ keyword k :=
  le_mul_of_one_le_left' one_le_kstar

/-- A segment and a period may stand in front of what starts with a qualifier. -/
theorem segment_qualifier (l : Language Kind) :
    name * mark .period * (qualifier * l) ≤ qualifier * l := by
  rw [← mul_assoc]
  gcongr
  exact mul_kstar_le_kstar

/-! ## Values -/

def valueRule (value : Language Kind) : Language Kind :=
  mark .dollar * qualified + kind .string + kind .int + kind .float + qualified +
    mark .bracketOpen * value∗ * mark .bracketClose +
    braced (qualified * mark .colon * value)∗

theorem valueRule_mono : Monotone valueRule := by
  intro a b h
  unfold valueRule braced
  gcongr

def value : Language Kind := OrderHom.lfp ⟨valueRule, valueRule_mono⟩

theorem valueRule_value : valueRule value = value := OrderHom.map_lfp ⟨valueRule, valueRule_mono⟩

theorem valueRule_le : valueRule value ≤ value := valueRule_value.le

theorem value_le {l : Language Kind} (h : valueRule l ≤ l) : value ≤ l :=
  OrderHom.lfp_le ⟨valueRule, valueRule_mono⟩ h

/-- A value with its name. -/
def field : Language Kind := qualified * mark .colon * value

/-! ## Directives, arguments and members -/

def directive : Language Kind := mark .at * qualified * optional (parenthesized field∗)

def directives : Language Kind := directive∗

def signature : Language Kind :=
  mark .colon * optional (mark .bracketOpen) * qualified * optional (mark .bang) *
    optional (mark .bracketClose) * optional (mark .bang) * optional (mark .equals * value)

def argument : Language Kind := optional (kind .description) * qualified * signature * directives

def memberRest : Language Kind :=
  parenthesized argument∗ * signature * directives + signature * directives + directives

def member : Language Kind := optional (kind .description) * qualified * memberRest

def body : Language Kind := optional (braced member∗)

def object : Language Kind := optional (keyword .implements * qualified∗) * directives * body

/-! ## Definitions -/

def definitionRule (definition : Language Kind) : Language Kind :=
  keyword .imports * (kind .string + parenthesized (kind .string)∗) +
    keyword .scalar * qualified * directives +
    keyword .schema * object +
    (keyword .type + keyword .interface + keyword .enum + keyword .input) * qualified * object +
    keyword .union * qualified * directives * optional (mark .equals) * qualified∗ +
    keyword .directive * mark .at * qualified * optional (parenthesized argument∗) *
      keyword .on * qualified∗ +
    keyword .extend * definition

theorem definitionRule_mono : Monotone definitionRule := by
  intro a b h
  unfold definitionRule
  gcongr

def definition : Language Kind := OrderHom.lfp ⟨definitionRule, definitionRule_mono⟩

theorem definitionRule_definition : definitionRule definition = definition :=
  OrderHom.map_lfp ⟨definitionRule, definitionRule_mono⟩

theorem definitionRule_le : definitionRule definition ≤ definition := definitionRule_definition.le

theorem definition_le {l : Language Kind} (h : definitionRule l ≤ l) : definition ≤ l :=
  OrderHom.lfp_le ⟨definitionRule, definitionRule_mono⟩ h

theorem segment_definition : name * mark .period * definition ≤ definition := by
  conv_lhs => rw [← definitionRule_definition]
  conv_rhs => rw [← definitionRule_definition]
  simp only [definitionRule, mul_add, ← mul_assoc]
  gcongr
  all_goals exact segment_qualifier _

/-- What stands in a document in front of its end. -/
def entries : Language Kind := (kind .string + definition)∗

def document : Language Kind := entries * kind .eof

/-! ## Nesting -/

/-- The mark that has to close what the token opens. Brackets do not count: the type of a signature may
have one without the other. -/
def closing? : Kind → Option Mark
  | .mark .parenOpen => some .parenClose
  | .mark .braceOpen => some .braceClose
  | _ => none

def isClosing : Kind → Bool
  | .mark .parenClose | .mark .braceClose => true
  | _ => false

/-- Parentheses and braces close in the reverse order of their opening, first those in `kinds` and then
those that were pending before, and none stays open. -/
def nests (pending : List Mark) (kinds : List Kind) : Bool :=
  match kinds with
  | [] => pending.isEmpty
  | k :: kinds =>
    match closing? k with
    | some m => nests (m :: pending) kinds
    | none =>
      if isClosing k then
        match pending with
        | m :: pending => k = .mark m && nests pending kinds
        | [] => false
      else nests pending kinds

theorem nests_opening {k : Kind} {m : Mark} (h : closing? k = some m) (pending : List Mark)
    (kinds : List Kind) : nests pending (k :: kinds) = nests (m :: pending) kinds := by
  simp [nests, h]

theorem nests_neither {k : Kind} (ho : closing? k = none) (hc : isClosing k = false)
    (pending : List Mark) (kinds : List Kind) : nests pending (k :: kinds) = nests pending kinds := by
  simp [nests, ho, hc]

theorem nests_closing {m : Mark} (ho : closing? (.mark m) = none) (hc : isClosing (.mark m) = true)
    (pending : List Mark) (kinds : List Kind) :
    nests (m :: pending) (.mark m :: kinds) = nests pending kinds := by
  simp [nests, ho, hc]

example : nests [] [.mark .parenOpen, .mark .braceOpen, .mark .parenClose, .mark .braceClose] = false := by
  decide

end SchemaScan.Grammar
