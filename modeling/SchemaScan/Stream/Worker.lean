import SchemaScan.Scan.Trace

/-! # Workers

A worker scans a source step by step. What it has found and not yet handed on lies in its outbox.
The items that are still to come, first those in the outbox and then those of the rest of the scan,
do not change while it works.
-/
namespace SchemaScan

/-- A scan at work. -/
structure Worker where
  mode : Mode
  /-- The base of the document. -/
  base : Nat
  /-- The state of the scan; none once it has ended. -/
  state : Option State
  /-- Items that have been found and not yet been handed on. -/
  outbox : List Item
  /-- The number of bytes that have been read. -/
  seen : Nat
  deriving DecidableEq, Repr

namespace Worker

/-- A worker in front of the source of the document with the given base. -/
def start (mode : Mode) (base : Nat) (source : List UInt8) : Worker :=
  let initial := State.initial source
  ⟨mode, base, some initial, [], initial.cursor.seen⟩

/-- Makes one step of the scan. -/
def scan (w : Worker) : Worker :=
  match w.state with
  | none => w
  | some s =>
    match s.step w.mode with
    | .next found t =>
      { w with
        state := some t
        outbox := w.outbox ++ found.map (·.item w.base)
        seen := t.cursor.seen }
    | .halt terminal c =>
      { w with
        state := none
        outbox := w.outbox ++ [terminal.item w.base]
        seen := c.seen }

/-- Gives up: nothing more is found, and what has been found is thrown away. -/
def stop (w : Worker) : Worker := { w with state := none, outbox := [] }

/-- What is left to do. -/
def measure (w : Worker) : Nat :=
  match w.state with
  | none => 0
  | some s => s.measure + 1

theorem measure_scan_lt {w : Worker} (h : w.state ≠ none) : w.scan.measure < w.measure := by
  obtain ⟨mode, base, _ | s, outbox, seen⟩ := w
  · exact absurd rfl h
  · cases hs : s.step mode with
    | next found t =>
      have := State.measure_lt_of_next hs
      simp only [scan, measure, hs]
      omega
    | halt terminal c => simp [scan, measure, hs]

/-- Scans until there is something to hand on. -/
def produce (w : Worker) : Worker :=
  if _h : w.outbox = [] ∧ w.state ≠ none then w.scan.produce else w
termination_by w.measure
decreasing_by exact measure_scan_lt _h.2

/-- The items that are still to be handed on. -/
def pending (w : Worker) : List Item :=
  w.outbox ++
    match w.state with
    | none => []
    | some s => (s.trace w.mode).items w.base

/-- A step of the scan moves items into the outbox and changes none. -/
theorem pending_scan (w : Worker) : w.scan.pending = w.pending := by
  obtain ⟨mode, base, _ | s, outbox, seen⟩ := w
  · rfl
  · cases hs : s.step mode with
    | next found t => simp [scan, pending, hs, State.trace_of_next hs, Trace.items]
    | halt terminal c => simp [scan, pending, hs, State.trace_of_halt hs, Trace.items]

theorem pending_start (mode : Mode) (base : Nat) (source : List UInt8) :
    (start mode base source).pending = (Trace.ofSource mode source).items base := rfl

end Worker

end SchemaScan
