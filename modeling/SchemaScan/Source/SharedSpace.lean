import SchemaScan.Source.PositionSpace

/-! # Shared position spaces

Several parties may use a position space at the same time: they register documents, change them and
look up positions. A lookup holds the space three times for a moment, to try the remembered document,
to search and to remember what it has found. Whatever others do may happen in between.
-/
namespace SchemaScan

namespace Lookup

/-- How far a lookup has come. -/
inductive Stage where
  | begun
  /-- The remembered document, if there was one, does not cover the position. -/
  | missed
  /-- The search has found the document, which is not remembered yet. -/
  | found (index : Nat)
  | answered (answer : Option Nat)
  deriving DecidableEq, Repr

end Lookup

/-- A lookup of a position by one party. -/
structure Lookup where
  pos : Nat
  stage : Lookup.Stage
  /-- How many documents were registered when it searched, if it has. No move depends on this. -/
  searched : Option Nat
  deriving DecidableEq, Repr

namespace Lookup

def start (pos : Nat) : Lookup := ⟨pos, .begun, none⟩

/-- Makes the next part of a lookup with the space as it is at that moment. -/
def advance (l : Lookup) (space : PositionSpace) : Lookup × PositionSpace :=
  match l.stage with
  | .begun =>
    if l.pos = 0 then ({ l with stage := .answered none }, space)
    else
      match space.remembered? l.pos with
      | some index => ({ l with stage := .answered (some index) }, space)
      | none => ({ l with stage := .missed }, space)
  | .missed =>
    let searched := some space.docs.length
    match space.search? l.pos with
    | some index => ({ l with stage := .found index, searched }, space)
    | none => ({ l with stage := .answered none, searched }, space)
  | .found index => ({ l with stage := .answered (some index) }, space.remember index)
  | .answered _ => (l, space)

end Lookup

/-- A position space and the lookups that have been begun in it. -/
structure SharedSpace where
  space : PositionSpace
  lookups : List Lookup
  deriving DecidableEq, Repr

namespace SharedSpace

inductive Move where
  | register (name : String) (base? : Option Nat) (size : Nat)
  | change (index : Nat) (c : Change)
  /-- Begins a lookup. -/
  | look (pos : Nat)
  /-- Makes the next part of the lookup with the given index. -/
  | advance (lookup : Nat)
  deriving DecidableEq, Repr

def empty : SharedSpace := ⟨PositionSpace.empty, []⟩

/-- The shared space after a move. A registration that fails changes nothing. -/
def move (s : SharedSpace) : Move → SharedSpace
  | .register name base? size =>
    match s.space.register name base? size with
    | .ok space => { s with space }
    | .error _ => s
  | .change index c => { s with space := s.space.modify index (·.change c) }
  | .look pos => { s with lookups := s.lookups ++ [Lookup.start pos] }
  | .advance lookup =>
    match s.lookups[lookup]? with
    | some l => ⟨(l.advance s.space).2, s.lookups.set lookup (l.advance s.space).1⟩
    | none => s

def run (s : SharedSpace) (moves : List Move) : SharedSpace := moves.foldl move s

end SharedSpace

end SchemaScan
