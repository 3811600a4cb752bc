import SchemaScan.Scan.Goal
import SchemaScan.Scan.Head
import SchemaScan.Scan.Trace

/-! # Recursive descent

A scanner for documents, with one routine for each part of a document. At the top level the
routines take turns, and each names the one that comes next; inside a definition they call each
other. Where routines disagree on who takes the rune that ends a part, it is taken and given back.
-/
namespace SchemaScan

namespace Scanner

/-! ## Words -/

def literal (role : StringRole) : Scanner Unit := do
  if ← string then emit role.kind else failQuoting (.malformedString role)

def name (use : NameUse) : Scanner Unit := do
  match ← identifier with
  | some kind => emit kind
  | none => failQuoting (.malformedName use)

/-- Takes a mark that may be left out. -/
def optional (m : Mark) : Scanner Unit := do
  if ← accept (· = m.char) then emit (.mark m) else pure ()

def description : Scanner Unit := do
  if (← peek) = some '"' then
    literal .description
    skip isSpace
  else pure ()

/-! ## Elements

The routines of elements are given the routine that takes the series inside them. -/

section Elements

variable (inner : Series → Option Char → Scanner Unit)

/-- Takes a series whose opening mark has just been taken. -/
def enclosed (opening closing : Mark) (s : Series) (fixed : Option Char) : Scanner Unit := do
  emit (.mark opening)
  inner s fixed
  emit (.mark closing)

/-- Takes directives, if there are any. -/
def directives (site : DirectiveSite) : Scanner Unit := do
  if (← peek) = some '@' then
    inner (.directives site) none
    backup
  else pure ()

def value : Scanner Unit := do
  match ← peek with
  | some '$' =>
    let _ ← accept (· = '$')
    emit (.mark .dollar)
    name .variableName
  | some '"' => literal .value
  | some '[' =>
    let _ ← accept (· = '[')
    enclosed inner .bracketOpen .bracketClose .values none
  | some '{' =>
    let _ ← accept (· = '{')
    enclosed inner .braceOpen .braceClose .objectFields none
  | some r =>
    if r = '-' || r.isDigit then
      emit (← number)
    else if isNameStart r then name .value
    else fail (.invalidValue (some r))
  | none => fail (.invalidValue none)

/-- Takes a type and a default value. The colon has been taken, but not handed on. -/
def signature : Scanner Unit := do
  emit (.mark .colon)
  skip isBlank
  optional .bracketOpen
  name .typeName
  optional .bang
  skip isBlank
  optional .bracketClose
  optional .bang
  skip isBlank
  if ← accept (· = '=') then
    emit (.mark .equals)
    skip isBlank
    value inner
  else pure ()

/-- Takes what follows the colon of a member. -/
def memberType : Scanner Unit := do
  signature inner
  skip isBlank
  directives inner .member

def memberRestWithin : Nat → Scanner Unit
  | 0 => giveUp
  | rounds + 1 => do
    match ← next with
    | some '(' =>
      enclosed inner .parenOpen .parenClose .arguments none
      skip isBlank
      if ← accept (· = ':') then memberType inner else fail (.missingMark .member none)
    | some ':' => memberType inner
    | some '@' =>
      backup
      inner (.directives .member) none
      backup
    | some r =>
      if isBlank r then
        skip isBlank
        memberRestWithin rounds
      else backup
    | none => backup

/-- Takes what follows the name of a member. -/
def memberRest : Scanner Unit := do
  memberRestWithin inner (← read).rounds

def member : Scanner Unit := do
  description
  name .member
  memberRest inner

def argument : Scanner Unit := do
  description
  name .argument
  skip isBlank
  if ← accept (· = ':') then
    signature inner
    skip isBlank
    directives inner .argument
  else fail (.missingMark .argument none)

def directive : Scanner Unit := do
  if ← accept (· = '@') then
    emit (.mark .at)
    name .directive
    if ← accept (· = '(') then
      enclosed inner .parenOpen .parenClose .directiveArguments (some ',')
    else pure ()
  else fail (.missingMark .directive none)

def assigned (place : MarkPlace) : Scanner Unit := do
  skip isBlank
  if ← accept (· = ':') then
    emit (.mark .colon)
    skip isBlank
    value inner
  else
    fail (.missingMark place (← peek))

def directiveArgument : Scanner Unit := do
  name .argument
  assigned inner .directiveArgument

def objectField : Scanner Unit := do
  name .objectField
  assigned inner .objectField

def element : Series → Scanner Unit
  | .importPaths => literal .importListPath
  | .interfaces => name .interface
  | .members => member inner
  | .arguments => argument inner
  | .directives _ => directive inner
  | .directiveArguments => directiveArgument inner
  | .values => value inner
  | .objectFields => objectField inner
  | .unionMembers => name .unionMember
  | .locations => name .location

end Elements

/-! ## Series -/

mutual

/-- Takes the elements of a series, and what ends it. A series inside an element may take as many rounds
as are left. -/
def seriesWithin : Nat → Series → Option Char → Scanner Unit
  | 0, _, _ => giveUp
  | rounds + 1, s, fixed => do
    skip isSpace
    if (← next).any s.isEnd then pure ()
    else
      backup
      if ← accept (· = '#') then
        if s.endsAtLine then
          trailingComment
          let _ ← accept s.isEnd
        else
          comment
          seriesWithin rounds s fixed
      else
        element (seriesWithin rounds) s
        separatorWithin rounds s fixed

/-- Takes what follows an element of a series. -/
def separatorWithin : Nat → Series → Option Char → Scanner Unit
  | 0, _, _ => giveUp
  | rounds + 1, s, fixed => do
    match ← next with
    | none => if s.endsAtLine then pure () else fail (.invalidSeparator none)
    | some r =>
      if fixed = some r then
        ignore
        seriesWithin rounds s fixed
      else if isBlank r then
        if s.separators.contains r then
          skip isBlank
          let after ← peek
          if after.any s.isEnd then
            let _ ← next
          else if after = none ∧ s.endsAtLine then pure ()
          else seriesWithin rounds s fixed
        else
          ignore
          separatorWithin rounds s fixed
      else if r = '#' then
        if s.separators = [','] ∨ fixed = some ',' then fail .commentBeforeComma
        else if s.endsAtLine then
          trailingComment
          separatorWithin rounds s fixed
        else
          ignoreComment
          seriesWithin rounds s fixed
      else if s.isEnd r then pure ()
      else if s.separators.contains r then
        if fixed.isSome then
          if r = '\n' then
            backup
            fail .mixedSeparators
          else fail .mixedSeparators
        else
          ignore
          seriesWithin rounds s (some r)
      else fail (.invalidSeparator (some r))

end

/-- Takes the elements of a series, and what ends it. `fixed` is the separator that the series has
been found to use. -/
def series (s : Series) (fixed : Option Char) : Scanner Unit := do
  seriesWithin (← read).rounds s fixed

end Scanner

/-! ## Phases -/

/-- The routines of the top level. -/
inductive Phase where
  | document | definition | imports | scalar | object | members | union | directive
  deriving DecidableEq, Repr

namespace Scanner

def document : Scanner (Option Phase) := do
  match ← next with
  | none =>
    let h ← get
    if h.start < h.pos then failWith "unexpected eof"
    else
      emit .eof
      pure none
  | some r =>
    if isSpace r then
      skip isSpace
      pure (some .document)
    else if r = '#' then
      comment
      pure (some .document)
    else if r = '"' then
      backup
      literal .value
      pure (some .document)
    else if isNameStart r then
      backup
      pure (some .definition)
    else fail (.unexpectedCharacter r)

/-- Hands on the reserved word of a definition. `on` starts none, and is not handed on. -/
def definitionWord (k : Keyword) : Scanner Unit :=
  if k = .on then pure () else emit (.keyword k)

/-- Takes the name of a definition, if it has one. -/
def definitionName (k : Keyword) : Scanner Unit := do
  if k ∈ [.imports, .extend, .schema, .directive] then pure ()
  else
    skip isBlank
    if (← peek).any isNameContinue then name .typeName else fail (.missingTypeName k)

/-- The phase that takes a definition behind its name. -/
def definitionPhase (k : Keyword) : Scanner (Option Phase) :=
  match k with
  | .imports => pure (some .imports)
  | .scalar => pure (some .scalar)
  | .schema | .type | .interface | .enum | .input => pure (some .object)
  | .union => pure (some .union)
  | .directive => pure (some .directive)
  | .extend => do
    skip isBlank
    pure (some .definition)
  | .package | .implements | .on => fail (.unknownDefinition k)

def definition : Scanner (Option Phase) := do
  match ← identifier with
  | some (.keyword k) =>
    definitionWord k
    definitionName k
    definitionPhase k
  | _ => fail .invalidDefinition

def imports : Scanner (Option Phase) := do
  skip isBlank
  match ← peek with
  | some '"' =>
    literal .importPath
    pure (some .document)
  | some '(' =>
    let _ ← accept (· = '(')
    enclosed series .parenOpen .parenClose .importPaths none
    pure (some .document)
  | _ => fail .missingImport

def scalar : Scanner (Option Phase) := do
  skip isBlank
  if (← peek) = some '@' then
    series (.directives .scalar) none
    ignore
    pure (some .document)
  else pure (some .document)

/-- The phase that takes the body of a type. -/
def objectBody : Scanner (Option Phase) := do
  match ← peek with
  | some '{' => pure (some .members)
  | none => pure (some .document)
  | some r => if isLineEnd r then pure (some .document) else fail (.unexpectedInDeclaration r)

def object : Scanner (Option Phase) := do
  skip isBlank
  if (← peek) = some 'i' then
    if (← identifier) = some (.keyword .implements) then
      emit (.keyword .implements)
      series .interfaces none
      backup
      let r ← peek
      if r = some '@' ∨ r = some '{' then
        directives series .object
        objectBody
      else pure (some .document)
    else fail .missingImplements
  else
    directives series .object
    objectBody

def members : Scanner (Option Phase) := do
  let _ ← accept (· = '{')
  enclosed series .braceOpen .braceClose .members none
  pure (some .document)

def union : Scanner (Option Phase) := do
  skip isBlank
  directives series .union
  if ← accept isLineEnd then
    ignore
    pure (some .document)
  else if (← peek) = none then
    ignore
    pure (some .document)
  else
    optional .equals
    series .unionMembers (some '|')
    ignore
    pure (some .document)

/-- Takes the arguments of a directive declaration, if there are any. -/
def declaredArguments : Scanner Unit := do
  if ← accept (· = '(') then enclosed series .parenOpen .parenClose .arguments none else pure ()

def directiveDeclaration : Scanner (Option Phase) := do
  skip isBlank
  if ← accept (· = '@') then
    emit (.mark .at)
    name .declaredDirective
    skip isBlank
    declaredArguments
    skip isBlank
    if (← identifier) = some (.keyword .on) then
      emit (.keyword .on)
      skip isBlank
      series .locations (some '|')
      ignore
      pure (some .document)
    else failQuoting .missingOn
  else fail (.missingMark .declaredDirective none)

/-- Takes one part of the top level and names the next. -/
def phase : Phase → Scanner (Option Phase)
  | .document => document
  | .definition => definition
  | .imports => imports
  | .scalar => scalar
  | .object => object
  | .members => members
  | .union => union
  | .directive => directiveDeclaration

def phasesWithin : Nat → Phase → Scanner Unit
  | 0, _ => giveUp
  | rounds + 1, current => do
    match ← phase current with
    | some following => phasesWithin rounds following
    | none => pure ()

def phases (current : Phase) : Scanner Unit := do
  phasesWithin (← read).rounds current

def dropByteOrderMark : Scanner Unit := do
  if (← next) = some byteOrderMark then ignore else backup

def start : Scanner Unit := do
  dropByteOrderMark
  phases .document

end Scanner

/-- The items that a scanner hands on, or the move that has no meaning, if it is not given up before. The
receiver refuses the item that comes after `room` others. -/
def Input.offered (input : Input) (room : Option Nat) : Option (Except Breach (List Item)) :=
  match Scanner.start input { Head.initial with room } with
  | none => none
  | some (.ok (), h) => some (.ok h.found)
  | some (.error .refused, h) => some (.ok h.found)
  | some (.error (.breach b), _) => some (.error b)
  | some (.error (.fault message start line), h) =>
    match input.doc.positionOf start with
    | .ok pos => some (.ok (h.found ++ [⟨.error, pos, message, line⟩]))
    | .error m => some (.error (.misuse m))

/-- The items that a scanner finds in a source, or the move that has no meaning, if it is not given
up before. -/
def Input.items (input : Input) : Option (Except Breach (List Item)) := input.offered none

end SchemaScan
