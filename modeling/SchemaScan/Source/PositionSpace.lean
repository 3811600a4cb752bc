import SchemaScan.Source.Document

/-! # Position spaces

A position space places documents one after the other, so that a bare position tells its document.
Documents are known by their index in the order of registration. The document that was registered
or found last is remembered and tried first; this changes how a search goes, never what it finds.
-/
namespace SchemaScan

/-- Why a document cannot be registered. -/
inductive RegistrationError where
  /-- The base lies before the first free position. -/
  | baseTaken (name : String) (base next : Nat)
  /-- The document would reach past the last position. -/
  | noRoom (name : String) (size : Nat)
  deriving DecidableEq, Repr

/-- What is said about a failed registration. -/
def RegistrationError.message : RegistrationError → String
  | baseTaken name base next =>
    "illegal base " ++ toString base ++ " for document '" ++ name ++ "': next free base is " ++
      toString next
  | noRoom name size =>
    "position offset overflow while adding document '" ++ name ++ "' of " ++ toString size ++
      " bytes"

/-- Documents that share their positions. -/
structure PositionSpace where
  /-- The first free position. Position 0 is never given to a document. -/
  next : Nat := 1
  /-- In the order of registration, which is the order of their positions. -/
  docs : List Document := []
  /-- The index of the document that was registered or found last. -/
  recent : Option Nat := none
  deriving DecidableEq, Repr

namespace PositionSpace

/-- The space without documents. -/
def empty : PositionSpace := {}

/-- Registers a document at the given base, or at the first free position. The position after its
last byte is its end and is taken too. -/
def register (space : PositionSpace) (name : String) (base? : Option Nat) (size : Nat) :
    Except RegistrationError PositionSpace :=
  let base := base?.getD space.next
  if base < space.next then .error (.baseTaken name base space.next)
  else if positionLimit < base + size + 1 then .error (.noRoom name size)
  else .ok {
    next := base + size + 1
    docs := space.docs ++ [{ name, base, size }]
    recent := some space.docs.length }

/-- Changes the document with the given index. -/
def modify (space : PositionSpace) (index : Nat) (f : Document → Document) : PositionSpace :=
  { space with docs := space.docs.modify index f }

/-! ## From a position to its document

A search consists of three parts, each of which looks at or changes the space on its own: the
remembered document is tried, then all documents are searched, then the result is remembered. -/

/-- The index, if its document covers the position. -/
def covering? (space : PositionSpace) (pos index : Nat) : Option Nat :=
  match space.docs[index]? with
  | some doc => if doc.covers pos then some index else none
  | none => none

/-- Tries the remembered document. -/
def remembered? (space : PositionSpace) (pos : Nat) : Option Nat :=
  space.recent.bind (space.covering? pos)

/-- Searches all documents: only the last one that starts at or before a position can cover it. -/
def search? (space : PositionSpace) (pos : Nat) : Option Nat :=
  match (space.docs.takeWhile (·.base ≤ pos)).length with
  | 0 => none
  | count + 1 => space.covering? pos count

/-- Remembers a document. -/
def remember (space : PositionSpace) (index : Nat) : PositionSpace :=
  { space with recent := some index }

/-- Finds the index of the document that covers a position, and remembers it. -/
def locate (space : PositionSpace) (pos : Nat) : Option Nat × PositionSpace :=
  if pos = 0 then (none, space)
  else
    match space.remembered? pos with
    | some index => (some index, space)
    | none =>
      match space.search? pos with
      | some index => (some index, space.remember index)
      | none => (none, space)

/-- The document that covers a position. -/
def document? (space : PositionSpace) (pos : Nat) : Option Document :=
  (space.locate pos).1.bind (space.docs[·]?)

/-- The location of a position in the document that covers it. -/
def location (space : PositionSpace) (pos : Nat) (adjusted : Bool) : Location :=
  match space.document? pos with
  | some doc => doc.locationAt (pos - doc.base) adjusted
  | none => Location.unknown

/-- A summary: the first free position and the number of documents. -/
def render (space : PositionSpace) : String :=
  "DocSet \x7b base: " ++ toString space.next ++ ", docs: " ++ toString space.docs.length ++
    " \x7d"

/-! ## Visiting all documents -/

/-- What is done with a document in turn: whether to go on, and the space and the state after it. -/
abbrev Visit (σ : Type) := Document → PositionSpace → σ → Bool × PositionSpace × σ

/-- Visits at most `fuel` documents, from the given index on, until a visit answers `false`. -/
def visitFrom {σ : Type} (visit : Visit σ) :
    (fuel index : Nat) → PositionSpace → σ → PositionSpace × σ
  | 0, _, space, state => (space, state)
  | fuel + 1, index, space, state =>
    match space.docs[index]? with
    | none => (space, state)
    | some doc =>
      match visit doc space state with
      | (true, space, state) => visitFrom visit fuel (index + 1) space state
      | (false, space, state) => (space, state)

/-- Visits the documents in the order of registration until a visit answers `false`. A visit may
itself register documents, which are visited in their turn. Every document takes up a position, so
there are never more of them than positions. -/
def visitAll {σ : Type} (visit : Visit σ) (space : PositionSpace) (state : σ) :
    PositionSpace × σ :=
  visitFrom visit positionLimit 0 space state

end PositionSpace

end SchemaScan
