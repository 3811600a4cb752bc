import SchemaScan.Source.LineTable
import SchemaScan.Source.Location

/-! # Documents

A document owns the positions from its base to its base plus its size, the last of which is the
position of its end. It knows the lines that have been read, and resolves positions to locations;
an override gives the positions from some offset on the file, line and column of another text.
-/
namespace SchemaScan

/-- Positions, offsets, lines and columns are numbers of 64 bits. -/
def positionLimit : Nat := UInt64.size - 1

/-- A use of a document against its contract. -/
inductive Misuse where
  /-- The source that is to be scanned does not have the size of its document. -/
  | sizeMismatch (name : String)
  /-- The offset lies behind the end of the document. -/
  | offsetOutside (offset : Nat)
  /-- The position belongs to no byte of the document and is not its end. -/
  | positionOutside (pos : Nat)
  /-- Lines are counted from 1. -/
  | lineZero
  /-- No known line follows the given one. -/
  | noLineAfter
  deriving DecidableEq, Repr

/-- What is said about a misuse. -/
def Misuse.message : Misuse → String
  | sizeMismatch name => "source length does not match the size of document '" ++ name ++ "'"
  | offsetOutside offset => "illegal document offset " ++ toString offset
  | positionOutside pos => "illegal Pos value " ++ toString pos
  | lineZero => "illegal line number (line numbering starts at 1)"
  | noLineAfter => "illegal line number"

/-- A second name for the text from `offset` on. -/
structure Override where
  offset : Nat
  filename : String
  line : Nat
  /-- The column at `offset`; 0 if columns are not known. -/
  column : Nat
  deriving DecidableEq, Repr

/-- A document in a position space. -/
structure Document where
  name : String
  /-- The position of the first byte. -/
  base : Nat
  /-- The number of bytes. -/
  size : Nat
  lines : LineTable := LineTable.fresh
  /-- In increasing order of their offsets. -/
  overrides : List Override := []
  deriving DecidableEq, Repr

namespace Document

/-- The position is one of the document's, its end included. -/
def covers (doc : Document) (pos : Nat) : Bool := doc.base ≤ pos && pos ≤ doc.base + doc.size

theorem covers_eq_true_iff {doc : Document} {pos : Nat} :
    doc.covers pos = true ↔ doc.base ≤ pos ∧ pos ≤ doc.base + doc.size := by
  rw [covers, Bool.and_eq_true, decide_eq_true_eq, decide_eq_true_eq]

/-- The position of an offset. -/
def positionOf (doc : Document) (offset : Nat) : Except Misuse Nat :=
  if offset ≤ doc.size then .ok (doc.base + offset) else .error (.offsetOutside offset)

/-- The offset of a position. -/
def offsetOf (doc : Document) (pos : Nat) : Except Misuse Nat :=
  if doc.covers pos then .ok (pos - doc.base) else .error (.positionOutside pos)

/-- Notes the start of a line, if it follows the known lines and lies inside the document. -/
def noteLine (doc : Document) (start : Nat) : Document :=
  { doc with lines := doc.lines.add doc.size start }

/-- Notes the starts of several lines. -/
def noteLines (doc : Document) (starts : List Nat) : Document :=
  { doc with lines := doc.lines.addAll doc.size starts }

/-- Joins a line with the one after it. -/
def joinLine (doc : Document) (line : Nat) : Except Misuse Document :=
  if line = 0 then .error .lineZero
  else if line < doc.lines.length then .ok { doc with lines := doc.lines.eraseIdx line }
  else .error .noLineAfter

/-- Replaces the line table, if the new one is strictly increasing and lies inside the document. -/
def withLines? (doc : Document) (starts : List Nat) : Option Document :=
  if LineTable.isTableFor doc.size starts then some { doc with lines := starts } else none

/-- Replaces the line table by that of a text. -/
def withLinesOf (doc : Document) (content : List UInt8) : Document :=
  { doc with lines := LineTable.ofContent content }

/-- Notes an override, if it lies behind the ones before it and inside the document. -/
def noteOverride (doc : Document) (o : Override) : Document :=
  if (doc.overrides.getLast?.all (·.offset < o.offset)) && o.offset < doc.size then
    { doc with overrides := doc.overrides ++ [o] }
  else doc

/-- Notes an override for file and line, whose columns count from the given offset. -/
def noteLineOverride (doc : Document) (offset : Nat) (filename : String) (line : Nat) : Document :=
  doc.noteOverride ⟨offset, filename, line, 1⟩

/-- The location of an offset by the lines of the document itself. -/
def rawLocation (doc : Document) (offset : Nat) : Location where
  filename := doc.name
  offset := offset
  line := doc.lines.lineAt offset
  column := doc.lines.columnAt offset

end Document

namespace Override

/-- Moves a location into the text that the override names. Lines keep their distance from the
line of the override, and are unknown beyond the last 64-bit number; on that line itself columns
count on from the override's column, modulo `2 ^ 64`. -/
def apply (o : Override) (lines : LineTable) (l : Location) : Location :=
  let first := lines.lineAt o.offset
  if first = 0 then { l with filename := o.filename }
  else
    let line := o.line + (l.line - first)
    { l with
      filename := o.filename
      line := if line ≤ positionLimit then line else 0
      column :=
        if o.column = 0 then 0
        else if l.line = first then (o.column + (l.offset - o.offset)) % (positionLimit + 1)
        else l.column }

end Override

namespace Document

/-- The override in force at an offset: the last one at or before it. -/
def overrideAt? (doc : Document) (offset : Nat) : Option Override :=
  (doc.overrides.takeWhile (·.offset ≤ offset)).getLast?

/-- The location of an offset, by the override in force there if `adjusted` asks for it. -/
def locationAt (doc : Document) (offset : Nat) (adjusted : Bool) : Location :=
  let raw := doc.rawLocation offset
  if adjusted then
    match doc.overrideAt? offset with
    | some o => o.apply doc.lines raw
    | none => raw
  else raw

/-- The location of a position of the document. Position 0 belongs to no document and has the
unknown location. -/
def location (doc : Document) (pos : Nat) (adjusted : Bool) : Except Misuse Location :=
  if pos = 0 then .ok Location.unknown
  else (doc.offsetOf pos).map (doc.locationAt · adjusted)

end Document

/-! ## Changes -/

/-- What may be noted about a document after it has been registered. -/
inductive Change where
  | line (start : Nat)
  | join (line : Nat)
  | table (starts : List Nat)
  | content (bytes : List UInt8)
  | override (o : Override)
  deriving DecidableEq, Repr

namespace Document

/-- Makes a change; one that is refused leaves the document as it is. -/
def change (doc : Document) : Change → Document
  | .line start => doc.noteLine start
  | .join line => (doc.joinLine line).toOption.getD doc
  | .table starts => (doc.withLines? starts).getD doc
  | .content bytes => doc.withLinesOf bytes
  | .override o => doc.noteOverride o

/-- The first position of a document and the number of its bytes. -/
def extent (doc : Document) : Nat × Nat := (doc.base, doc.size)

/-- A change concerns the lines and the overrides only. -/
theorem exists_change_eq (doc : Document) (c : Change) :
    ∃ lines overrides, doc.change c = { doc with lines, overrides } := by
  cases c with
  | line start => exact ⟨_, _, rfl⟩
  | join line =>
    simp only [change, joinLine]
    split
    · exact ⟨_, _, rfl⟩
    · split <;> exact ⟨_, _, rfl⟩
  | table starts =>
    simp only [change, withLines?]
    split <;> exact ⟨_, _, rfl⟩
  | content bytes => exact ⟨_, _, rfl⟩
  | override o =>
    simp only [change, noteOverride]
    split <;> exact ⟨_, _, rfl⟩

/-- No change moves a document. -/
theorem extent_change (doc : Document) (c : Change) : (doc.change c).extent = doc.extent := by
  obtain ⟨lines, overrides, hchange⟩ := doc.exists_change_eq c
  rw [hchange]
  rfl

end Document

end SchemaScan
