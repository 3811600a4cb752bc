import SchemaScan.Scan.Progress
import SchemaScan.Source.Document

/-! # Traces

The trace of a scan lists the tokens in the order in which they are found and says how the scan
ended. A document turns a trace into items: offsets become positions, and the end of the scan
becomes the last item. What the scan has read tells the document where its lines start.
-/
namespace SchemaScan

/-- A scan from beginning to end. -/
structure Trace where
  lexemes : List Lexeme
  terminal : Terminal
  /-- The number of bytes that have been read. -/
  seen : Nat
  deriving DecidableEq, Repr

/-- The trace of the scan that goes on from a state. -/
def State.trace (mode : Mode) (s : State) : Trace :=
  match _h : s.step mode with
  | .halt terminal cursor => ⟨[], terminal, cursor.seen⟩
  | .next found t =>
    let rest := t.trace mode
    { rest with lexemes := found ++ rest.lexemes }
termination_by s.measure
decreasing_by exact State.measure_lt_of_next _h

/-- The trace of a scan that ends with its next step is empty. -/
theorem State.trace_of_halt {mode : Mode} {s : State} {terminal : Terminal} {c : Cursor}
    (h : s.step mode = .halt terminal c) : s.trace mode = ⟨[], terminal, c.seen⟩ := by
  rw [State.trace]
  split
  · rename_i h'
    rw [h] at h'
    cases h'
    rfl
  · rename_i h'
    rw [h] at h'
    cases h'

/-- A step adds what it has found to the trace of what follows. -/
theorem State.trace_of_next {mode : Mode} {s t : State} {found : List Lexeme}
    (h : s.step mode = .next found t) :
    s.trace mode = { t.trace mode with lexemes := found ++ (t.trace mode).lexemes } := by
  rw [State.trace]
  split
  · rename_i h'
    rw [h] at h'
    cases h'
  · rename_i h'
    rw [h] at h'
    cases h'
    rfl

/-- The byte-order mark, which may stand at the very start of a source. -/
def byteOrderMark : Char := '\uFEFF'

/-- The state in which the scan of a source starts: behind the byte-order mark, if there is one, and
at the top level. -/
def State.initial (source : List UInt8) : State :=
  let c := Cursor.start (Rune.read source)
  ⟨if c.peek = some byteOrderMark then c.next else c, []⟩

/-- The trace of a source. -/
def Trace.ofSource (mode : Mode) (source : List UInt8) : Trace := (State.initial source).trace mode

/-- A token as an item of the document with the given base. -/
def Lexeme.item (base : Nat) (l : Lexeme) : Item :=
  ⟨l.kind, base + l.start, Rune.text l.runes, l.line⟩

/-- The end of a scan as an item of the document with the given base. -/
def Terminal.item (base : Nat) : Terminal → Item
  | eof start line => ⟨.eof, base + start, "", line⟩
  | fault f start line => ⟨.error, base + start, f.message, line⟩

/-- The items of a trace; the last one tells how the scan ended. -/
def Trace.items (base : Nat) (t : Trace) : List Item :=
  t.lexemes.map (·.item base) ++ [t.terminal.item base]

namespace Document

/-- Notes the lines that start in the first `seen` bytes of the source. -/
def readLines (doc : Document) (source : List UInt8) (seen : Nat) : Document :=
  doc.noteLines (LineTable.startsFrom 0 (source.take seen))

/-- Scans the source of a document: its items, and the document with the lines that have been
read. -/
def scan (doc : Document) (source : List UInt8) (mode : Mode) :
    Except Misuse (List Item × Document) :=
  if source.length = doc.size then
    let t := Trace.ofSource mode source
    .ok (t.items doc.base, doc.readLines source t.seen)
  else .error (.sizeMismatch doc.name)

theorem scan_of_size (doc : Document) {source : List UInt8} (h : source.length = doc.size)
    (mode : Mode) : doc.scan source mode = .ok ((Trace.ofSource mode source).items doc.base,
      doc.readLines source (Trace.ofSource mode source).seen) := if_pos h

end Document

end SchemaScan
