import SchemaScan.Scan.Head

/-! # Noting lines

While a head moves over a source, its document notes the start of a line behind every line feed that is
taken: at once, and again whenever the line feed is taken again.
-/
namespace SchemaScan

/-- What moves a head. -/
inductive Motion where
  | next | backup
  deriving DecidableEq, Repr

/-- A head, and the document in which lines are noted. -/
structure Scribe where
  head : Head
  doc : Document
  deriving DecidableEq, Repr

namespace Scribe

def start (doc : Document) : Scribe := ⟨Head.initial, doc⟩

/-- Moves the head, unless that would be a breach. -/
def move (source : List UInt8) (s : Scribe) (m : Motion) : Option Scribe :=
  let input : Input := ⟨s.doc, source, {}, 0⟩
  match m with
  | .next =>
    match Scanner.next input s.head with
    | some (.ok r, head) => some ⟨head, if r = some '\n' then s.doc.noteLine head.pos else s.doc⟩
    | _ => none
  | .backup =>
    match Scanner.backup input s.head with
    | some (.ok _, head) => some { s with head }
    | _ => none

def run (source : List UInt8) (s : Scribe) (motions : List Motion) : Option Scribe :=
  motions.foldlM (move source) s

end Scribe

end SchemaScan
