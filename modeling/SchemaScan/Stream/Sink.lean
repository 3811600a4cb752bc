import SchemaScan.Scan.Trace

/-! # Sinks

A sink takes the items of a scan one at a time and may refuse one. The scan stops at the first
refusal, in the middle of whatever it was at: nothing more is found and nothing more is offered.
-/
namespace SchemaScan

/-- A receiver of items: its state after an item, and whether it took the item. -/
abbrev Sink (σ : Type) := σ → Item → σ × Bool

namespace Sink

/-- Offers items until one is refused. -/
def offer {σ : Type} (sink : Sink σ) : σ → List Item → σ × Bool
  | s, [] => (s, true)
  | s, item :: items =>
    match sink s item with
    | (s, true) => sink.offer s items
    | (s, false) => (s, false)

/-- Offers the items of the scan that goes on from a state, as they are found. -/
def feed {σ : Type} (sink : Sink σ) (mode : Mode) (base : Nat) (s : σ) (state : State) : σ :=
  match _h : state.step mode with
  | .halt terminal _ => (sink s (terminal.item base)).1
  | .next found state' =>
    match sink.offer s (found.map (·.item base)) with
    | (s, true) => sink.feed mode base s state'
    | (s, false) => s
termination_by state.measure
decreasing_by exact State.measure_lt_of_next _h

/-- Takes every item and keeps it. -/
def keepAll : Sink (List Item) := fun items item => (items ++ [item], true)

end Sink

end SchemaScan
