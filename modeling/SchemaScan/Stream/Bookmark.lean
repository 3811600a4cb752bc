import SchemaScan.Stream.Schedule

/-! # Bookmarks

What a reader gets does not depend on the worker and its queue: the list of all items and a bookmark
in it decide every answer. The items are taken in order, and after the last one it comes again. A
reader that stops listening before that gets an error instead.
-/
namespace SchemaScan

/-- How far a reader has come in a list of items. -/
structure Bookmark where
  /-- How many items have been asked for and given out. -/
  taken : Nat
  /-- The reader stopped listening before the last item. -/
  isDrained : Bool
  /-- The reader has been told that there is no other item. -/
  isTold : Bool
  deriving DecidableEq, Repr

namespace Bookmark

def first : Bookmark := ⟨0, false, false⟩

/-- The item that comes next. -/
def current (all : List Item) (b : Bookmark) : Item :=
  if b.isDrained then Pipeline.interruption "lexer drained"
  else (all[b.taken]?).getD (all.getLast?.getD
    (Pipeline.interruption "lexer stopped before reaching the end of input"))

/-- All items that come before the reader is told that there is no other. -/
def left (all : List Item) (b : Bookmark) : List Item :=
  if b.taken < all.length then all.drop b.taken else [b.current all]

/-- The answer to a call, and the bookmark after it. -/
def answer (all : List Item) (b : Bookmark) : Call → Answer × Bookmark
  | .pull => (.item (b.current all), { b with taken := b.taken + 1 })
  | .next =>
    if b.isTold then (.ended, b)
    else (.item (b.current all),
      { b with taken := b.taken + 1, isTold := (b.current all).isTerminal })
  | .takeAll =>
    if b.isTold then (.items [], b)
    else (.items (b.left all), { b with taken := b.taken + (b.left all).length, isTold := true })
  | .close =>
    (.closed, if b.taken < all.length then { b with isDrained := true, isTold := true } else b)

def answers (all : List Item) : Bookmark → List Call → List Answer
  | _, [] => []
  | b, call :: calls => (b.answer all call).1 :: answers all (b.answer all call).2 calls

end Bookmark

/-- The item in a document with another base. -/
def Item.rebase (before after : Nat) (item : Item) : Item :=
  { item with pos := item.pos - before + after }

end SchemaScan
