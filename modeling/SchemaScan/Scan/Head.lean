import SchemaScan.Scan.Fault
import SchemaScan.Scan.Literal
import SchemaScan.Source.Document
import SchemaScan.Text.Layout
import SchemaScan.Text.NameCharacter
import SchemaScan.Text.Rune
import SchemaScan.Token.Item

/-! # The head of a scanner

A scanner walks over the bytes of a source with one head, which can step back over the rune it took
last. Every move is checked: to index or quote what is not there, to count below zero, or to use a
document against its contract is a breach. A loop may take so many rounds and no more: a scanner whose
loops go on for longer is given up, and has no result.
-/
namespace SchemaScan

/-- What a scanner is given. -/
structure Input where
  doc : Document
  source : List UInt8
  mode : Mode
  /-- How many rounds a loop may take. -/
  rounds : Nat
  deriving DecidableEq, Repr

/-- Where a scanner stands, and what it has found. -/
structure Head where
  /-- The number of bytes that have been taken. -/
  pos : Nat
  /-- Where the pending text starts. -/
  start : Nat
  /-- The width of the rune that was taken last. -/
  width : Nat
  line : Nat
  found : List Item
  /-- How many items the receiver takes before it refuses one; none if it takes all. -/
  room : Option Nat := none
  deriving DecidableEq, Repr

def Head.initial : Head := { pos := 0, start := 0, width := 0, line := 1, found := [] }

/-- A move that has no meaning. -/
inductive Breach where
  /-- There is no byte at the offset. -/
  | indexOutside (offset : Nat)
  /-- The difference of the two numbers is negative. -/
  | belowZero (whole part : Nat)
  /-- No stretch of the source has these ends. -/
  | sliceOutside (start stop : Nat)
  /-- The document does not allow it. -/
  | misuse (m : Misuse)
  deriving DecidableEq, Repr

/-- Why a scanner stops early. -/
inductive Stop where
  /-- A lexical error, with the start of the pending text and the line of the head. -/
  | fault (message : String) (start line : Nat)
  | breach (b : Breach)
  /-- The receiver has refused the item that was found last. -/
  | refused
  deriving DecidableEq, Repr

abbrev Scanner := ReaderT Input (ExceptT Stop (StateT Head Option))

namespace Scanner

def giveUp {α : Type} : Scanner α := fun _ _ => none

/-! ## Checked operations -/

def minus (whole part : Nat) : Scanner Nat :=
  if part ≤ whole then pure (whole - part) else throw (.breach (.belowZero whole part))

def byteAt (offset : Nat) : Scanner UInt8 := do
  match (← read).source[offset]? with
  | some b => pure b
  | none => throw (.breach (.indexOutside offset))

def slice (start stop : Nat) : Scanner (List UInt8) := do
  let source := (← read).source
  if start ≤ stop ∧ stop ≤ source.length then pure ((source.take stop).drop start)
  else throw (.breach (.sliceOutside start stop))

def positionOf (offset : Nat) : Scanner Nat := do
  match (← read).doc.positionOf offset with
  | .ok pos => pure pos
  | .error m => throw (.breach (.misuse m))

/-! ## Moves -/

def next : Scanner (Option Char) := do
  let h ← get
  let source := (← read).source
  if source.length ≤ h.pos then
    set { h with width := 0 }
    pure none
  else
    match Rune.read (source.drop h.pos) with
    | [] => throw (.breach (.indexOutside h.pos))
    | r :: _ =>
      set { h with
        pos := h.pos + r.width
        width := r.width
        line := if r.char = '\n' then h.line + 1 else h.line }
      pure (some r.char)

/-- Steps back over the rune that was taken last. -/
def backup : Scanner Unit := do
  let h ← get
  let pos ← minus h.pos h.width
  if h.width = 1 then
    if (← byteAt pos) = 0x0A then
      let line ← minus h.line 1
      set { h with pos, line }
    else set { h with pos }
  else set { h with pos }

def peek : Scanner (Option Char) := do
  let r ← next
  backup
  pure r

def ignore : Scanner Unit := do
  let h ← get
  set { h with start := h.pos }

def pending : Scanner String := do
  let h ← get
  pure (Utf8.lossy (← slice h.start h.pos))

/-- Hands the pending text on as an item, and stops if the item is refused. -/
def emit (kind : Kind) : Scanner Unit := do
  let h ← get
  let pos ← positionOf h.start
  let text ← pending
  let item : Item := ⟨kind, pos, text, h.line⟩
  set { h with start := h.pos, found := h.found ++ [item] }
  if h.room = some h.found.length then throw .refused else pure ()

/-- Stops with an error that starts where the pending text does. -/
def failWith {α : Type} (message : String) : Scanner α := do
  let h ← get
  throw (.fault message h.start h.line)

def fail {α : Type} (f : Fault) : Scanner α := failWith f.message

/-- Stops with an error that quotes the pending text. -/
def failQuoting {α : Type} (f : String → Fault) : Scanner α := do
  fail (f (← pending))

/-- Takes the next rune if its character satisfies `p`. -/
def accept (p : Char → Bool) : Scanner Bool := do
  if (← next).any p then pure true
  else
    backup
    pure false

def passWithin (p : Char → Bool) : Nat → Scanner Unit
  | 0 => giveUp
  | rounds + 1 => do
    if (← next).any p then passWithin p rounds else pure ()

/-- Takes runes whose characters satisfy `p`, and one rune more. -/
def pass (p : Char → Bool) : Scanner Unit := do
  passWithin p (← read).rounds

/-- Takes all next runes whose characters satisfy `p`. -/
def acceptRun (p : Char → Bool) : Scanner Unit := do
  pass p
  backup

/-- Drops all next runes whose characters satisfy `p`, and the pending text with them. -/
def skip (p : Char → Bool) : Scanner Unit := do
  acceptRun p
  ignore

/-! ## Comments -/

/-- Drops the rest of the line, line break included. -/
def ignoreComment : Scanner Unit := do
  pass (!isLineEnd ·)
  ignore

/-- Goes on behind the `#` of a comment. -/
def comment : Scanner Unit := do
  if (← read).mode.comments then
    acceptRun (!isLineEnd ·)
    emit .comment
  else ignoreComment

/-- Goes on behind the `#` of a comment at the end of a series, and leaves the line break. -/
def trailingComment : Scanner Unit := do
  acceptRun (!isLineEnd ·)
  if (← read).mode.comments then emit .comment else ignore

/-! ## Tokens -/

/-- Takes the rest of a run of quotes, the first of which has just been taken, and counts them. -/
def quotes : Scanner Nat := do
  let start ← minus (← get).pos 1
  acceptRun StringLiteral.isQuote
  minus (← get).pos start

def stringBodyWithin (block : Bool) : Nat → Scanner Bool
  | 0 => giveUp
  | rounds + 1 => do
    match ← next with
    | none => pure false
    | some r =>
      if r = '\\' then
        if (← next) = none then pure false else stringBodyWithin block rounds
      else if r = '"' then
        let count ← quotes
        if block = false then pure (count = 1)
        else if 3 ≤ count then pure (count = 3)
        else stringBodyWithin block rounds
      else stringBodyWithin block rounds

/-- Takes a string after its opening quotes and says whether it is closed. -/
def stringBody (block : Bool) : Scanner Bool := do
  stringBodyWithin block (← read).rounds

def string : Scanner Bool := do
  let start := (← get).pos
  acceptRun StringLiteral.isQuote
  match ← minus (← get).pos start with
  | 1 => stringBody false
  | 3 => stringBody true
  | _ => pure false

/-- Takes a point and digits, and says whether there is a point. -/
def fraction : Scanner Bool := do
  if ← accept (· = '.') then
    acceptRun Char.isDigit
    pure true
  else pure false

/-- Takes an exponent, and says whether there is one. -/
def exponent : Scanner Bool := do
  if ← accept (fun c => c = 'e' || c = 'E') then
    let _ ← accept (fun c => c = '+' || c = '-')
    acceptRun Char.isDigit
    pure true
  else pure false

def number : Scanner Kind := do
  let _ ← accept (· = '-')
  let start := (← get).pos
  acceptRun Char.isDigit
  if (← get).pos = start then failQuoting .malformedNumber
  else
    let fractional ← fraction
    let exponential ← exponent
    pure (if fractional || exponential then .float else .int)

def atTerminator : Scanner Bool := do
  match ← peek with
  | none => pure true
  | some r => pure (NameSegment.isTerminator r)

def identifierWithin : Nat → Scanner (Option Kind)
  | 0 => giveUp
  | rounds + 1 => do
    let start := (← get).pos
    acceptRun isNameContinue
    if (← get).pos = start then pure none
    else if (← atTerminator) = false then pure none
    else
      let kind := Kind.ofName (← pending)
      if (← peek) = some '.' then
        emit kind
        let _ ← accept (· = '.')
        emit (.mark .period)
        identifierWithin rounds
      else pure (some kind)

/-- Takes a name. Segments with a period behind them are handed on; what remains is the kind of the
last segment, if it is one. -/
def identifier : Scanner (Option Kind) := do
  identifierWithin (← read).rounds

end Scanner

end SchemaScan
