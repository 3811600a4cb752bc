import SchemaScan.Scan.Cursor
import SchemaScan.Scan.Goal
import SchemaScan.Scan.Literal
import SchemaScan.Token.Item

/-! # Steps of a scan

A scan is a sequence of steps. A step takes the topmost goal from the stack, reports the tokens it
finds, and either leaves a smaller state or ends the scan: at the end of the source, or at the
first fault. With an empty stack the scan is at the top level of the document.
-/
namespace SchemaScan

structure Lexeme where
  kind : Kind
  /-- The number of bytes before the token. -/
  start : Nat
  runes : List Rune
  /-- The line of the end of the token. -/
  line : Nat
  deriving DecidableEq, Repr

inductive Terminal where
  /-- All of the source has been scanned. -/
  | eof (start line : Nat)
  /-- What starts at the offset `start` is wrong. -/
  | fault (f : Fault) (start line : Nat)
  deriving DecidableEq, Repr

structure State where
  cursor : Cursor
  /-- The topmost goal comes first. -/
  goals : List Goal
  deriving DecidableEq, Repr

inductive Step where
  | next (found : List Lexeme) (state : State)
  | halt (terminal : Terminal) (cursor : Cursor)
  deriving DecidableEq, Repr

namespace NameRole

/-- The kinds that a name may have in its role. -/
def accepts (role : NameRole) (kind : Kind) : Bool :=
  match role with
  | definition => kind.isKeyword
  | implements => kind = .keyword .implements
  | on => kind = .keyword .on
  | plain _ => true

/-- What is wrong if the text is not a name for the role. -/
def fault (role : NameRole) (text : String) : Fault :=
  match role with
  | definition => .invalidDefinition
  | implements => .missingImplements
  | on => .missingOn text
  | plain use => .malformedName use text

/-- The name is reported. Only the word `on` at the start of a definition is not: nothing that
starts with it is a definition. -/
def reports (role : NameRole) (kind : Kind) : Bool :=
  !(role = definition && kind = .keyword .on)

def following (role : NameRole) (kind : Kind) : List Goal :=
  match role, kind with
  | definition, .keyword k => Goal.definitionRest k
  | _, _ => []

theorem weights_following_lt (role : NameRole) (kind : Kind) :
    Goal.weights (role.following kind) < Goal.bound := by
  unfold following
  split
  · exact Goal.weights_definitionRest_lt _
  · decide

end NameRole

namespace Step

/-- Reports the runes `taken` as a token and goes on behind them. -/
def token (kind : Kind) (taken : List Rune) (c after : Cursor) (goals : List Goal) : Step :=
  .next [⟨kind, c.offset, taken, after.line⟩] ⟨after, goals⟩

/-- Reports the mark after the cursor. -/
def mark (m : Mark) (c : Cursor) (goals : List Goal) : Step :=
  token (.mark m) (c.rest.take 1) c c.next goals

/-- Ends the scan with a fault that starts at `c`, after the source has been taken up to
`after`. -/
def fail (f : Fault) (c after : Cursor) : Step := .halt (.fault f c.offset after.line) after

/-- Takes a name segment. A segment with a period behind it is reported together with the period,
and the name goes on; the last segment decides what the name is. -/
def name (role : NameRole) (c : Cursor) (goals : List Goal) : Step :=
  let reading := NameSegment.read c.rest
  let text := Rune.text reading.taken
  let kind := Kind.ofName text
  let after := (c.advance reading.taken reading.rest).look
  if !reading.value then fail (role.fault text) c after
  else if after.peek = some '.' then
    .next
      [⟨kind, c.offset, reading.taken, after.line⟩,
        ⟨.mark .period, after.offset, after.rest.take 1, after.next.line⟩]
      ⟨after.next, .name role :: goals⟩
  else if !role.accepts kind then fail (role.fault text) c after
  else if role.reports kind then token kind reading.taken c after (role.following kind ++ goals)
  else .next [] ⟨after, role.following kind ++ goals⟩

def string (role : StringRole) (c : Cursor) (goals : List Goal) : Step :=
  let reading := StringLiteral.read c.rest
  let after := (c.advance reading.taken reading.rest).look
  if reading.value then token role.kind reading.taken c after goals
  else fail (.malformedString role (Rune.text reading.taken)) c after

def number (c : Cursor) (goals : List Goal) : Step :=
  let reading := NumberLiteral.read c.rest
  let after := (c.advance reading.taken reading.rest).look
  match reading.value with
  | some kind => token kind reading.taken c after goals
  | none => fail (.malformedNumber (Rune.text reading.taken)) c after

/-- Takes a comment, up to the end of its line, and reports it if the mode asks for comments. -/
def comment (mode : Mode) (c : Cursor) (goals : List Goal) : Step :=
  let taken := Rune.run (!isLineEnd ·) c.rest
  let after := c.skip (!isLineEnd ·)
  if mode.comments then token .comment taken c after goals else .next [] ⟨after, goals⟩

/-- Leaves a series at its end. A closing mark belongs to the series; what ends the line does
not. -/
def leave (s : Series) (c : Cursor) (goals : List Goal) : Step :=
  match s.ending with
  | .closing m => mark m c goals
  | .line _ => .next [] ⟨c, goals⟩

/-- Goes on in a series where an element may start. A comment here ends a series that ends with its
line, and is passed over in any other. -/
def elements (mode : Mode) (s : Series) (fixed : Option Char) (c : Cursor) (goals : List Goal) :
    Step :=
  let c := c.skip isSpace
  let again := Goal.elements s fixed :: goals
  if c.peek.any s.isEnd then leave s c goals
  else if c.peek = some '#' then comment mode c (if s.endsAtLine then goals else again)
  else .next [] ⟨c, Goal.element s ++ .separator s fixed :: goals⟩

/-- Goes on in a series behind an element. The first separator fixes the separator of the whole
series. A comment counts as a line break that fixes nothing, and is not reported; in a series that
ends with its line it is reported and changes nothing. -/
def separator (mode : Mode) (s : Series) (fixed : Option Char) (c : Cursor) (goals : List Goal) :
    Step :=
  let c := c.look
  match c.peek with
  | none =>
    if s.endsAtLine then .next [] ⟨c, goals⟩ else fail (.invalidSeparator none) c c
  | some r =>
    if fixed = some r then .next [] ⟨c.next, .elements s fixed :: goals⟩
    else if isBlank r then
      let after := c.skip isBlank
      if !s.isBlankSeparated then .next [] ⟨after, .separator s fixed :: goals⟩
      else if after.peek.all s.isEnd then .next [] ⟨after, goals⟩
      else .next [] ⟨after, .elements s fixed :: goals⟩
    else if r = '#' then
      if fixed = some ',' then fail .commentBeforeComma c c.next
      else if s.endsAtLine then comment mode c (.separator s fixed :: goals)
      else .next [] ⟨c.skip (!isLineEnd ·), .elements s fixed :: goals⟩
    else if s.isEnd r then leave s c goals
    else if s.separators.contains r then
      if fixed.isSome then fail .mixedSeparators c c
      else .next [] ⟨c.next, .elements s (some r) :: goals⟩
    else fail (.invalidSeparator (some r)) c c.next

/-- Goes on as the next character decides. -/
def construct (k : Construct) (c : Cursor) (goals : List Goal) : Step :=
  let c := c.look
  match k.choose c.peek with
  | .expand inner => .next [] ⟨c, inner ++ goals⟩
  | .take m inner => mark m c (inner ++ goals)
  | .fail f => fail f c c

/-- Goes on at the top level of a document, between definitions. -/
def topLevel (mode : Mode) (c : Cursor) : Step :=
  let c := c.look
  match c.peek with
  | none => .halt (.eof c.offset c.line) c
  | some r =>
    if isSpace r then .next [] ⟨c.skip isSpace, []⟩
    else if r = '#' then comment mode c []
    else if r = '"' then string .value c []
    else if isNameStart r then name .definition c []
    else fail (.unexpectedCharacter r) c c.next

end Step

/-- The next step of a scan. -/
def State.step (mode : Mode) (s : State) : Step :=
  match s.goals with
  | [] => Step.topLevel mode s.cursor
  | .blanks :: goals => .next [] ⟨s.cursor.skip isBlank, goals⟩
  | .space :: goals => .next [] ⟨s.cursor.skip isSpace, goals⟩
  | .name role :: goals => Step.name role s.cursor goals
  | .string role :: goals => Step.string role s.cursor goals
  | .number :: goals => Step.number s.cursor goals
  | .elements series fixed :: goals => Step.elements mode series fixed s.cursor goals
  | .separator series fixed :: goals => Step.separator mode series fixed s.cursor goals
  | .construct k :: goals => Step.construct k s.cursor goals

end SchemaScan
