import SchemaScan.Stream.Schedule

/-! # Moves of a session

All that a party can do with its turn: a move of the worker, what the reader can take from the pipeline,
and a move of the reader are relations with one case for each way to make the move. What a move keeps is
proved of the relations, case by case.
-/
namespace SchemaScan

namespace Pipeline

variable {p q : Pipeline}

/-- A move of the worker. -/
inductive Advances (p : Pipeline) : Pipeline → Prop
  /-- There is nothing to hand on. -/
  | scans (houtbox : p.worker.outbox = []) (hstate : p.worker.state ≠ none) :
      Advances p { p with worker := p.worker.scan }
  /-- Nobody listens any more. -/
  | stops {item : Item} {outbox : List Item} (houtbox : p.worker.outbox = item :: outbox)
      (hclosed : p.isOpen = false) : Advances p { p with worker := p.worker.stop }
  /-- There is room in the queue. -/
  | hands {item : Item} {outbox : List Item} (houtbox : p.worker.outbox = item :: outbox)
      (hopen : p.isOpen = true) (hroom : p.queue.length < p.capacity) :
      Advances p { p with worker := { p.worker with outbox }, queue := p.queue ++ [item] }

theorem advance?_eq_some_iff : p.advance? = some q ↔ p.Advances q := by
  constructor
  · intro h
    unfold advance? at h
    split at h
    · rename_i houtbox
      split at h
      · cases h
      · rename_i hstate
        cases h
        exact .scans houtbox hstate
    · rename_i item outbox houtbox
      split at h
      · rename_i hclosed
        cases h
        exact .stops houtbox (by simpa using hclosed)
      · rename_i hopen
        split at h
        · rename_i hroom
          cases h
          exact .hands houtbox (by simpa using hopen) hroom
        · cases h
  · intro h
    cases h with
    | scans houtbox hstate => simp [advance?, houtbox, hstate]
    | stops houtbox hclosed => simp [advance?, houtbox, hclosed]
    | hands houtbox hopen hroom => simp [advance?, houtbox, hopen, hroom]

/-- What the reader can take, and the pipeline behind it. -/
inductive Offers (p : Pipeline) : Option Item → Pipeline → Prop
  /-- The first item of the queue. -/
  | queued {item : Item} {queue : List Item} (hqueue : p.queue = item :: queue) :
      Offers p (some item) { p with queue }
  /-- An item from the hands of the worker, as there is no queue. -/
  | handed {item : Item} {outbox : List Item} (hqueue : p.queue = [])
      (houtbox : p.worker.outbox = item :: outbox) (hcapacity : p.capacity = 0) :
      Offers p (some item) { p with worker := { p.worker with outbox } }
  /-- Nothing at all, as the worker has ended. -/
  | ended (hqueue : p.queue = []) (houtbox : p.worker.outbox = []) (hstate : p.worker.state = none) :
      Offers p none p

theorem offered?_eq_some_iff {received : Option Item} :
    p.offered? = some (received, q) ↔ p.Offers received q := by
  constructor
  · intro h
    unfold offered? at h
    split at h
    · rename_i item queue outbox hqueue
      cases h
      exact .queued hqueue
    · rename_i item outbox hqueue houtbox
      split at h
      · rename_i hcapacity
        cases h
        exact .handed hqueue houtbox hcapacity
      · cases h
    · rename_i hqueue houtbox
      split at h
      · rename_i hstate
        cases h
        exact .ended hqueue houtbox hstate
      · cases h
  · intro h
    cases h with
    | queued hqueue => simp [offered?, hqueue]
    | handed hqueue houtbox hcapacity => simp [offered?, hqueue, houtbox, hcapacity]
    | ended hqueue houtbox hstate => simp [offered?, hqueue, houtbox, hstate]

end Pipeline

namespace Session

variable {s t : Session}

theorem advance?_eq_some_iff :
    s.advance? = some t ↔ ∃ q, s.pipeline.Advances q ∧ { s with pipeline := q } = t := by
  simp only [advance?, Option.map_eq_some_iff, Pipeline.advance?_eq_some_iff]

/-- A move of the reader. -/
inductive Reacts (s : Session) : Session → Prop
  | begins {call : Call} {calls : List Call} (hactivity : s.activity = .idle)
      (hcalls : s.calls = call :: calls) : Reacts s ({ s with calls }.begin call)
  | receives {wait : Wait} {received : Option Item} {q : Pipeline}
      (hactivity : s.activity = .receiving wait) (hoffers : s.pipeline.Offers received q) :
      Reacts s (s.deliver wait (q.accept received).1 (q.accept received).2)
  /-- It has taken all items and knows it. -/
  | tells {taken : List Item} (hactivity : s.activity = .taking taken)
      (hexhausted : s.pipeline.isExhausted = true) : Reacts s (s.answer (.items taken) s.pipeline)
  | requests {taken : List Item} (hactivity : s.activity = .taking taken)
      (hexhausted : s.pipeline.isExhausted = false) : Reacts s (s.request (.takeAll taken))
  | closes (hactivity : s.activity = .joining) (hended : s.pipeline.hasEnded = true) :
      Reacts s (s.answer .closed s.pipeline.afterClose)

theorem react?_eq_some_iff : s.react? = some t ↔ s.Reacts t := by
  constructor
  · intro h
    unfold react? at h
    split at h
    · rename_i hactivity
      split at h
      · cases h
      · rename_i call calls hcalls
        cases h
        exact .begins hactivity hcalls
    · rename_i wait hactivity
      split at h
      · cases h
      · rename_i received q hoffered
        cases h
        exact .receives hactivity (Pipeline.offered?_eq_some_iff.mp hoffered)
    · rename_i taken hactivity
      split at h
      · rename_i hexhausted
        cases h
        exact .tells hactivity hexhausted
      · rename_i hexhausted
        cases h
        exact .requests hactivity (by simpa using hexhausted)
    · rename_i hactivity
      split at h
      · rename_i hended
        cases h
        exact .closes hactivity hended
      · cases h
  · intro h
    cases h with
    | begins hactivity hcalls => simp only [react?, hactivity, hcalls]
    | receives hactivity hoffers =>
      simp only [react?, hactivity, Pipeline.offered?_eq_some_iff.mpr hoffers]
    | tells hactivity hexhausted => simp only [react?, hactivity, hexhausted, ↓reduceIte]
    | requests hactivity hexhausted =>
      simp only [react?, hactivity, hexhausted, Bool.false_eq_true, ↓reduceIte]
    | closes hactivity hended => simp only [react?, hactivity, hended, ↓reduceIte]

/-- A move is one of the worker or one of the reader. -/
theorem advances_or_reacts {party : Party} (hm : s.move? party = some t) :
    (∃ q, s.pipeline.Advances q ∧ { s with pipeline := q } = t) ∨ s.Reacts t := by
  cases party with
  | worker => exact .inl (advance?_eq_some_iff.mp hm)
  | reader => exact .inr (react?_eq_some_iff.mp hm)

end Session

end SchemaScan
