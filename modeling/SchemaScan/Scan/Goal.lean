import SchemaScan.Scan.Fault
import SchemaScan.Text.Layout
import SchemaScan.Text.NameCharacter

/-! # Goals

While a document is scanned, a stack of goals says what is still to come inside the definition at
hand; at the top level of the document the stack is empty. Some goals take a token from the source.
The others, the constructs, only look at the next character to decide which goals stand in their
place: `Construct.choose` is the grammar of schema documents as a table.

Every goal has a weight, and a construct weighs more than the goals that replace it.
-/
namespace SchemaScan

/-- Where directives are applied; this decides which characters end them besides the line. -/
inductive DirectiveSite where
  | scalar | object | union | member | argument
  deriving DecidableEq, Repr

/-- The sequences of separated elements. -/
inductive Series where
  | importPaths | interfaces | members | arguments | directives (site : DirectiveSite)
  | directiveArguments | values | objectFields | unionMembers | locations
  deriving DecidableEq, Repr

/-- How a series ends. -/
inductive Ending where
  /-- With a closing mark, which is a token of its own. -/
  | closing (m : Mark)
  /-- At the end of the line, at the end of the source, or in front of one of the characters. -/
  | line (stops : List Char)
  deriving DecidableEq, Repr

namespace Series

def ending : Series → Ending
  | importPaths | arguments | directiveArguments => .closing .parenClose
  | members | objectFields => .closing .braceClose
  | values => .closing .bracketClose
  | interfaces => .line ['@', '{']
  | directives .scalar => .line []
  | directives .object => .line ['{']
  | directives .union => .line ['=']
  | directives .member => .line [',', '}']
  | directives .argument => .line [',', ')']
  | unionMembers | locations => .line []

/-- The characters that may separate two elements. -/
def separators : Series → List Char
  | importPaths | members | arguments | values | objectFields => [',', '\n']
  | directiveArguments => [',']
  | interfaces => ['&']
  | unionMembers | locations => ['|']
  | directives _ => [' ', '\t']

def isBlankSeparated : Series → Bool
  | directives _ => true
  | _ => false

def endsAtLine (s : Series) : Bool :=
  match s.ending with
  | .closing _ => false
  | .line _ => true

theorem endsAtLine_of_blanks {s : Series} (h : s.isBlankSeparated = true) : s.endsAtLine = true := by
  cases s with
  | directives site => cases site <;> rfl
  | _ => cases h

theorem ending_of_endsAtLine {s : Series} (h : s.endsAtLine = true) :
    ∃ stops, s.ending = .line stops := by
  unfold endsAtLine at h
  split at h
  · cases h
  · exact ⟨_, ‹_›⟩

theorem ending_of_not_endsAtLine {s : Series} (h : s.endsAtLine = false) :
    ∃ m, s.ending = .closing m := by
  unfold endsAtLine at h
  split at h
  · exact ⟨_, ‹_›⟩
  · cases h

def isEnd (s : Series) (c : Char) : Bool :=
  match s.ending with
  | .closing m => c = m.char
  | .line stops => isLineEnd c || stops.contains c

end Series

/-- What is decided by the next character alone. -/
inductive Construct where
  /-- A mark that may be left out. -/
  | optional (m : Mark)
  /-- A mark that may not. -/
  | required (place : MarkPlace)
  /-- The name of a definition follows. -/
  | typeName (k : Keyword)
  /-- The reserved word starts no definition. -/
  | unknown (k : Keyword)
  /-- One path, or several in parentheses. -/
  | imports
  | directives (site : DirectiveSite)
  /-- Interfaces, directives and body of a type. -/
  | typeRest
  /-- Directives and body of a type behind its interfaces. -/
  | afterInterfaces
  | body
  | unionTypes
  | declaredArguments
  /-- Arguments, type and directives of a member behind its name. -/
  | memberRest
  | defaultValue
  /-- A string in front of a member or an argument. -/
  | description
  | appliedArguments
  /-- A variable, string, number, name, list or object. -/
  | value
  deriving DecidableEq, Repr

inductive Goal where
  /-- Blanks, if there are any. -/
  | blanks
  /-- Layout, if there is any. -/
  | space
  /-- A name, with the segments that qualify it. -/
  | name (role : NameRole)
  | string (role : StringRole)
  | number
  /-- The next element of a series, or its end; `fixed` is the separator that the series has been
  found to use. -/
  | elements (s : Series) (fixed : Option Char)
  | separator (s : Series) (fixed : Option Char)
  | construct (c : Construct)
  deriving DecidableEq, Repr

namespace Goal

/-- A type with its list and non-null marks, and a default value, behind the colon. -/
def signature : List Goal :=
  [blanks, construct (.optional .bracketOpen), name (.plain .typeName),
    construct (.optional .bang), blanks, construct (.optional .bracketClose),
    construct (.optional .bang), blanks, construct .defaultValue]

/-- Type and directives of a member behind the colon. -/
def memberType : List Goal := signature ++ [blanks, construct (.directives .member)]

def element : Series → List Goal
  | .importPaths => [string .importListPath]
  | .interfaces => [name (.plain .interface)]
  | .members =>
    [construct .description, name (.plain .member), blanks, construct .memberRest]
  | .arguments =>
    [construct .description, name (.plain .argument), blanks, construct (.required .argument)] ++
      signature ++ [blanks, construct (.directives .argument)]
  | .directives _ =>
    [construct (.required .directive), name (.plain .directive), construct .appliedArguments]
  | .directiveArguments =>
    [name (.plain .argument), blanks, construct (.required .directiveArgument), blanks,
      construct .value]
  | .values => [construct .value]
  | .objectFields =>
    [name (.plain .objectField), blanks, construct (.required .objectField), blanks,
      construct .value]
  | .unionMembers => [name (.plain .unionMember)]
  | .locations => [name (.plain .location)]

def definitionName (k : Keyword) : List Goal :=
  [blanks, construct (.typeName k), name (.plain .typeName)]

/-- A definition behind its reserved word. -/
def definitionRest (k : Keyword) : List Goal :=
  match k with
  | .imports => [blanks, construct .imports]
  | .schema => [blanks, construct .typeRest]
  | .extend => [blanks, name .definition]
  | .directive =>
    [blanks, construct (.required .declaredDirective), name (.plain .declaredDirective), blanks,
      construct .declaredArguments, blanks, name .on, elements .locations (some '|')]
  | .scalar => definitionName k ++ [blanks, construct (.directives .scalar)]
  | .type | .interface | .enum | .input => definitionName k ++ [blanks, construct .typeRest]
  | .union =>
    definitionName k ++ [blanks, construct (.directives .union), construct .unionTypes]
  | .package | .implements | .on => definitionName k ++ [construct (.unknown k)]

end Goal

/-- How a construct goes on. -/
inductive Choice where
  /-- The goals stand in its place. -/
  | expand (goals : List Goal)
  /-- The next character is the mark, and the goals follow it. -/
  | take (m : Mark) (goals : List Goal)
  /-- The next character is wrong. -/
  | fail (f : Fault)

namespace Construct

open Goal

/-- How a construct goes on in front of a character, or at the end of the source. -/
def choose (construct : Construct) (next : Option Char) : Choice :=
  match construct with
  | optional m => if next = some m.char then .take m [] else .expand []
  | required place =>
    if next = some place.mark.char then .take place.mark []
    else .fail (.missingMark place next)
  | typeName k => if next.any isNameContinue then .expand [] else .fail (.missingTypeName k)
  | unknown k => .fail (.unknownDefinition k)
  | imports =>
    match next with
    | some '"' => .expand [string .importPath]
    | some '(' => .take .parenOpen [elements .importPaths none]
    | _ => .fail .missingImport
  | directives site =>
    if next = some '@' then .expand [elements (.directives site) none] else .expand []
  | typeRest =>
    if next = some 'i' then
      .expand [name .implements, elements .interfaces none, .construct afterInterfaces]
    else .expand [.construct (directives .object), .construct body]
  | afterInterfaces =>
    if next = some '@' ∨ next = some '{' then
      .expand [.construct (directives .object), .construct body]
    else .expand []
  | body =>
    match next with
    | some '{' => .take .braceOpen [elements .members none]
    | some c => if isLineEnd c then .expand [] else .fail (.unexpectedInDeclaration c)
    | none => .expand []
  | unionTypes =>
    if next.all isLineEnd then .expand []
    else .expand [.construct (optional .equals), elements .unionMembers (some '|')]
  | declaredArguments =>
    if next = some '(' then .take .parenOpen [elements .arguments none] else .expand []
  | memberRest =>
    match next with
    | some '(' =>
      .take .parenOpen
        ([elements .arguments none, blanks, .construct (required .member)] ++ memberType)
    | some ':' => .take .colon memberType
    | some '@' => .expand [elements (.directives .member) none]
    | _ => .expand []
  | defaultValue => if next = some '=' then .take .equals [blanks, .construct value] else .expand []
  | description =>
    if next = some '"' then .expand [string .description, space] else .expand []
  | appliedArguments =>
    if next = some '(' then .take .parenOpen [elements .directiveArguments (some ',')]
    else .expand []
  | value =>
    match next with
    | some '$' => .take .dollar [name (.plain .variableName)]
    | some '"' => .expand [string .value]
    | some '[' => .take .bracketOpen [elements .values none]
    | some '{' => .take .braceOpen [elements .objectFields none]
    | some c =>
      if c = '-' || c.isDigit then .expand [number]
      else if isNameStart c then .expand [name (.plain .value)]
      else .fail (.invalidValue next)
    | none => .fail (.invalidValue next)

/-- The weight of a construct. -/
def weight : Construct → Nat
  | optional _ | required _ | typeName _ | unknown _ | body | declaredArguments | defaultValue
  | appliedArguments => 1
  | imports | value => 2
  | description => 3
  | unionTypes => 5
  | directives _ | memberRest => 6
  | afterInterfaces => 8
  | typeRest => 13

end Construct

namespace Series

/-- The weight of an element of a series. -/
def weight : Series → Nat
  | importPaths | interfaces | unionMembers | locations => 1
  | values => 2
  | directives _ => 3
  | directiveArguments | objectFields => 6
  | members => 11
  | arguments => 22

end Series

namespace Goal

/-- The weight of a goal. -/
def weight : Goal → Nat
  | blanks | space | name _ | string _ | number | separator _ _ => 1
  | elements s _ => s.weight + 2
  | construct c => c.weight

def weights : List Goal → Nat
  | [] => 0
  | g :: goals => g.weight + weights goals

@[simp] theorem weights_nil : weights [] = 0 := rfl
@[simp] theorem weights_cons (g : Goal) (goals : List Goal) :
    weights (g :: goals) = g.weight + weights goals := rfl
@[simp] theorem weights_append (a b : List Goal) : weights (a ++ b) = weights a + weights b := by
  induction a with
  | nil => simp
  | cons g a ih => simp [ih, Nat.add_assoc]

theorem weights_element (s : Series) : weights (element s) = s.weight := by
  cases s <;> rfl

/-- More than what any goal weighs that a token brings with it. -/
def bound : Nat := 64

theorem weights_definitionRest_lt (k : Keyword) : weights (definitionRest k) < bound := by
  cases k <;> decide

end Goal

namespace Construct

/-- A construct weighs more than the goals that stand in its place. -/
theorem weights_lt_of_expand {c : Construct} {next : Option Char} {goals : List Goal}
    (h : c.choose next = .expand goals) : Goal.weights goals < c.weight := by
  cases c <;> simp only [choose] at h <;> (repeat' split at h) <;> cases h <;>
    simp [weight, Goal.weight, Series.weight]

theorem weights_lt_of_take {c : Construct} {next : Option Char} {m : Mark} {goals : List Goal}
    (h : c.choose next = .take m goals) : Goal.weights goals < Goal.bound := by
  cases c <;> simp only [choose] at h <;> (repeat' split at h) <;> cases h <;>
    simp [weight, Goal.weight, Series.weight, Goal.memberType, Goal.signature, Goal.bound]

/-- A mark is taken only where it stands. -/
theorem next_of_take {c : Construct} {next : Option Char} {m : Mark} {goals : List Goal}
    (h : c.choose next = .take m goals) : next = some m.char := by
  cases c <;> simp only [choose] at h <;> (repeat' split at h) <;> cases h <;>
    simp_all [Mark.char, MarkPlace.mark]

end Construct

end SchemaScan
