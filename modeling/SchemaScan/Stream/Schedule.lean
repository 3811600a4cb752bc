import SchemaScan.Stream.Pipeline

/-! # Schedules

The worker and the reader of a pipeline move one at a time, in any order. A schedule says whose turn
it is; a party that has to wait lets its turn pass. The reader waits while nothing is on its way to
it, and, once it has stopped listening, until the worker has ended.
-/
namespace SchemaScan

/-- What a reader asks a pipeline for. -/
inductive Call where
  | pull | next | takeAll | close
  deriving DecidableEq, Repr

/-- What a reader gets for a call. -/
inductive Answer where
  | item (i : Item)
  /-- There is no next item. -/
  | ended
  | items (is : List Item)
  | closed
  deriving DecidableEq, Repr

namespace Pipeline

/-- The worker has ended, and nothing is left in its hands. -/
def hasEnded (p : Pipeline) : Bool := p.worker.state = none && p.worker.outbox = []

/-- What the reader can take at this moment: the first item of the queue, from the hands of the
worker if there is no queue, or nothing at all after the worker has ended. Else it has to wait. -/
def offered? (p : Pipeline) : Option (Option Item × Pipeline) :=
  match p.queue, p.worker.outbox with
  | item :: queue, _ => some (some item, { p with queue })
  | [], item :: outbox =>
    if p.capacity = 0 then some (some item, { p with worker := { p.worker with outbox } }) else none
  | [], [] => if p.worker.state = none then some (none, p) else none

/-- Notes the last item as such. -/
def accept (p : Pipeline) (received : Option Item) : Item × Pipeline :=
  let item := received.getD (interruption "lexer stopped before reaching the end of input")
  (item, if item.isTerminal then { p with terminal := some item } else p)

/-- What the reader knows after it has stopped listening. -/
def afterClose (p : Pipeline) : Pipeline :=
  match p.terminal with
  | some _ => p
  | none => { p with terminal := some (interruption "lexer drained"), isExhausted := true }

end Pipeline

/-- The calls that may wait for an item. -/
inductive Wait where
  | pull | next
  /-- The items that have been taken so far. -/
  | takeAll (taken : List Item)
  deriving DecidableEq, Repr

/-- What the reader is at. -/
inductive Activity where
  | idle
  | receiving (wait : Wait)
  /-- Is between two items of `takeAll`. -/
  | taking (taken : List Item)
  /-- Has stopped listening and waits for the worker to end. -/
  | joining
  deriving DecidableEq, Repr

structure Session where
  pipeline : Pipeline
  activity : Activity
  /-- Calls that have not been begun. -/
  calls : List Call
  answers : List Answer
  deriving DecidableEq, Repr

inductive Party where
  | worker | reader
  deriving DecidableEq, Repr

namespace Session

/-- A reader in front of a pipeline, before its first call. -/
def start (p : Pipeline) (calls : List Call) : Session := ⟨p, .idle, calls, []⟩

def answer (s : Session) (a : Answer) (p : Pipeline) : Session :=
  { s with pipeline := p, activity := .idle, answers := s.answers ++ [a] }

def deliver (s : Session) (wait : Wait) (item : Item) (p : Pipeline) : Session :=
  match wait with
  | .pull => s.answer (.item item) p
  | .next => s.answer (.item item) { p with isExhausted := item.isTerminal }
  | .takeAll taken =>
    { s with
      pipeline := { p with isExhausted := item.isTerminal }
      activity := .taking (taken ++ [item]) }

/-- Asks for an item: the last one is given out again, any other has to be waited for. -/
def request (s : Session) (wait : Wait) : Session :=
  match s.pipeline.terminal with
  | some item => s.deliver wait item s.pipeline
  | none => { s with activity := .receiving wait }

def begin (s : Session) (call : Call) : Session :=
  match call with
  | .pull => s.request .pull
  | .next => if s.pipeline.isExhausted then s.answer .ended s.pipeline else s.request .next
  | .takeAll => { s with activity := .taking [] }
  | .close =>
    { s with pipeline := { s.pipeline with queue := [], isOpen := false }, activity := .joining }

/-- The next move of the reader, if it has not to wait and is not done. -/
def react? (s : Session) : Option Session :=
  match s.activity with
  | .idle =>
    match s.calls with
    | [] => none
    | call :: calls => some ({ s with calls }.begin call)
  | .receiving wait =>
    match s.pipeline.offered? with
    | none => none
    | some (received, p) =>
      let (item, p) := p.accept received
      some (s.deliver wait item p)
  | .taking taken =>
    if s.pipeline.isExhausted then some (s.answer (.items taken) s.pipeline)
    else some (s.request (.takeAll taken))
  | .joining =>
    if s.pipeline.hasEnded then some (s.answer .closed s.pipeline.afterClose) else none

def advance? (s : Session) : Option Session :=
  s.pipeline.advance?.map fun p => { s with pipeline := p }

def move? (s : Session) : Party → Option Session
  | .worker => s.advance?
  | .reader => s.react?

def turn (s : Session) (party : Party) : Session := (s.move? party).getD s

def run (s : Session) (schedule : List Party) : Session := schedule.foldl turn s

theorem run_append (s : Session) (a b : List Party) : s.run (a ++ b) = (s.run a).run b :=
  List.foldl_append

end Session

end SchemaScan
