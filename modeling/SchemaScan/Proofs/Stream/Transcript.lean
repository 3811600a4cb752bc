import SchemaScan.Proofs.Stream.Answers

/-! # Transcripts

What the answers of a bookmark come to in the eyes of a reader: the items come in their order and the
last one again and again, until the reader stops listening. What it gets then depends on whether the
last item had come before.
-/
namespace SchemaScan

/-- The items in an answer. -/
def Answer.given : Answer → List Item
  | .item i => [i]
  | .items is => is
  | _ => []

namespace Bookmark

variable {all : List Item} {b : Bookmark}

/-- The bookmark after a sequence of calls. -/
def after (all : List Item) (b : Bookmark) (calls : List Call) : Bookmark :=
  calls.foldl (fun b call => (b.answer all call).2) b

/-- The items are those from a place on, and then the last one again and again. -/
def Follows (all : List Item) (place : Nat) (items : List Item) : Prop :=
  ∀ k item, items[k]? = some item → all[place + k]?.or all.getLast? = some item

theorem Follows.append {place : Nat} {some others : List Item} (h : Follows all place some)
    (h' : Follows all (place + some.length) others) : Follows all place (some ++ others) := by
  intro k item hk
  rcases Nat.lt_or_ge k some.length with hlt | hge
  · rw [List.getElem?_append_left hlt] at hk
    exact h k item hk
  · rw [List.getElem?_append_right hge] at hk
    have := h' _ item hk
    rwa [Nat.add_assoc, Nat.add_sub_cancel' hge] at this

end Bookmark

end SchemaScan
