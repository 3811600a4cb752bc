import SchemaScan.Proofs.Stream.Calls
import SchemaScan.Proofs.Stream.Progress
import SchemaScan.Proofs.Stream.Transcript

/-! # Sessions

A pipeline is as good as the list of all items of its source: the worker, the size of the queue and
the base of the document change nothing in the answers, apart from the positions of the items.
-/
namespace SchemaScan

namespace Pipeline

variable {all : List Item} {b : Bookmark} {p : Pipeline}

end Pipeline

/-- The items of a source in documents with different bases differ in their positions only. -/
theorem Trace.items_rebase (t : Trace) (before after : Nat) :
    (t.items before).map (Item.rebase before after) = t.items after := by
  have hlexeme (l : Lexeme) : (l.item before).rebase before after = l.item after := by
    simp only [Lexeme.item, Item.rebase, Nat.add_sub_cancel_left, Nat.add_comm]
  have hterminal : (t.terminal.item before).rebase before after = t.terminal.item after := by
    cases t.terminal <;> simp only [Terminal.item, Item.rebase, Nat.add_sub_cancel_left, Nat.add_comm]
  simp only [items, List.map_append, List.map_map, List.map_cons, List.map_nil, hterminal]
  congr 1
  exact List.map_congr_left fun l _ => hlexeme l

end SchemaScan
