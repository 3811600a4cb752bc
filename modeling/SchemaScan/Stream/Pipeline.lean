import SchemaScan.Stream.Worker

/-! # Pipelines

A pipeline hands the items of a document to one reader. A worker scans ahead and puts what it finds
into a queue of bounded size; if the queue is full, it waits. The reader takes items from the queue
and, if it is empty, directly from the worker, so that a queue of size 0 works too. After the last
item the reader gets that item again. When the reader closes the pipeline, the worker stops, and
nothing more comes out.
-/
namespace SchemaScan

/-- A worker, its queue, and what its reader knows. -/
structure Pipeline where
  /-- The document as it was when the pipeline was started. -/
  initial : Document
  source : List UInt8
  /-- How many items the queue can hold. -/
  capacity : Nat
  worker : Worker
  /-- Items on their way from the worker to the reader. -/
  queue : List Item
  /-- The reader still listens to the queue. -/
  isOpen : Bool
  /-- The item after which there is no other, once the reader knows it. -/
  terminal : Option Item
  /-- The reader has been told that there is no other item. -/
  isExhausted : Bool
  deriving DecidableEq, Repr

namespace Pipeline

/-- How many items a queue holds if nothing else is asked for. -/
def defaultCapacity : Nat := 64

/-- Starts a pipeline for the source of a document. -/
def start (doc : Document) (source : List UInt8) (mode : Mode) (capacity : Nat) :
    Except Misuse Pipeline :=
  if source.length = doc.size then
    .ok {
      initial := doc
      source
      capacity
      worker := Worker.start mode doc.base source
      queue := []
      isOpen := true
      terminal := none
      isExhausted := false }
  else .error (.sizeMismatch doc.name)

/-- The document with the lines that have been read up to now. -/
def document (p : Pipeline) : Document := p.initial.readLines p.source p.worker.seen

/-! ## The worker -/

/-- The next move of the worker: it scans on if it has nothing to hand on, and else puts an item
into the queue. It has no move if the queue is full or the scan has ended. If nobody listens any
more, it stops. -/
def advance? (p : Pipeline) : Option Pipeline :=
  match p.worker.outbox with
  | [] => if p.worker.state = none then none else some { p with worker := p.worker.scan }
  | item :: outbox =>
    if !p.isOpen then some { p with worker := p.worker.stop }
    else if p.queue.length < p.capacity then
      some { p with worker := { p.worker with outbox }, queue := p.queue ++ [item] }
    else none

/-- Lets the worker make up to `moves` moves. -/
def work : (moves : Nat) → Pipeline → Pipeline
  | 0, p => p
  | moves + 1, p =>
    match p.advance? with
    | none => p
    | some p => work moves p

/-! ## The reader -/

/-- Waits for an item. There is none if the worker has ended. -/
def receive (p : Pipeline) : Option Item × Pipeline :=
  match p.queue with
  | item :: queue => (some item, { p with queue })
  | [] =>
    let worker := p.worker.produce
    match worker.outbox with
    | item :: outbox => (some item, { p with worker := { worker with outbox } })
    | [] => (none, { p with worker })

/-- An error that no place in the source is to blame for. -/
def interruption (message : String) : Item := ⟨.error, 0, message, 0⟩

/-- Takes the next item. Once the last item has been taken, it is given out again. -/
def pull (p : Pipeline) : Item × Pipeline :=
  match p.terminal with
  | some item => (item, p)
  | none =>
    let (received, p) := p.receive
    let item := received.getD (interruption "lexer stopped before reaching the end of input")
    (item, if item.isTerminal then { p with terminal := some item } else p)

/-- Takes the next item, if there is one. After the last item there is none. -/
def next? (p : Pipeline) : Option Item × Pipeline :=
  if p.isExhausted then (none, p)
  else
    let (item, p) := p.pull
    (some item, { p with isExhausted := item.isTerminal })

/-- Stops listening. The worker stops at the item that it finds next, and what is in the queue is
thrown away. If the last item had not been taken, an error takes its place, and there is no next
item. -/
def close (p : Pipeline) : Pipeline :=
  let p := { p with worker := p.worker.produce.stop, queue := [], isOpen := false }
  match p.terminal with
  | some _ => p
  | none => { p with terminal := some (interruption "lexer drained"), isExhausted := true }

/-- Takes items while there are any, but no more than `count`. -/
def takeUpTo : (count : Nat) → Pipeline → List Item × Pipeline
  | 0, p => ([], p)
  | count + 1, p =>
    match p.next? with
    | (none, p) => ([], p)
    | (some item, p) =>
      let (items, p) := takeUpTo count p
      (item :: items, p)

/-- The items that are still on their way. -/
def pending (p : Pipeline) : List Item := p.queue ++ p.worker.pending

/-- Takes all items that are left: those on their way, and the last item if it has been taken
without the reader having been told that there is no other. -/
def takeAll (p : Pipeline) : List Item × Pipeline := p.takeUpTo (p.pending.length + 1)

end Pipeline

end SchemaScan
