import SchemaScan.Proofs.Scan.LineTables
import SchemaScan.Proofs.Stream.Transcript

/-! # Locations of items on their way

As soon as the worker of a pipeline has found an item, its document tells where the item starts, and what
it tells does not change any more, however far the worker and the reader go.
-/
namespace SchemaScan

/-! ## Items on their way -/

/-- The items that a reader has got while it waits for others. -/
def Wait.taken : Wait → List Item
  | .takeAll taken => taken
  | _ => []

def Activity.taken : Activity → List Item
  | .receiving wait => wait.taken
  | .taking taken => taken
  | _ => []

namespace Pipeline

/-- The items in the hands of the worker, in the queue, and the last one. -/
def carried (p : Pipeline) : List Item := p.worker.outbox ++ p.queue ++ p.terminal.toList

end Pipeline

namespace Session

/-- The items that the worker has found and nobody has thrown away. -/
def handed (s : Session) : List Item :=
  s.pipeline.carried ++ s.activity.taken ++ s.answers.flatMap Answer.given

variable {P : Item → Prop} {s t : Session} {p q : Pipeline} {item : Item} {wait : Wait}

theorem forall_answer {a : Answer} (hp : ∀ i ∈ p.carried, P i) (ha : ∀ i ∈ a.given, P i)
    (hs : ∀ i ∈ s.answers.flatMap Answer.given, P i) : ∀ i ∈ (s.answer a p).handed, P i := by
  simp only [handed, answer, Activity.taken, List.append_nil, List.forall_mem_append,
    List.flatMap_append, List.flatMap_singleton]
  exact ⟨hp, hs, ha⟩

theorem forall_deliver (hp : ∀ i ∈ p.carried, P i) (hi : P item) (hw : ∀ i ∈ wait.taken, P i)
    (hs : ∀ i ∈ s.answers.flatMap Answer.given, P i) : ∀ i ∈ (s.deliver wait item p).handed, P i := by
  have hone : ∀ i ∈ [item], P i := List.forall_mem_singleton.mpr hi
  cases wait with
  | pull | next => exact forall_answer hp hone hs
  | takeAll taken =>
    simp only [handed, deliver, Activity.taken, List.forall_mem_append]
    exact ⟨⟨hp, hw, hone⟩, hs⟩

theorem forall_request (hp : ∀ i ∈ s.pipeline.carried, P i) (hw : ∀ i ∈ wait.taken, P i)
    (hs : ∀ i ∈ s.answers.flatMap Answer.given, P i) : ∀ i ∈ (s.request wait).handed, P i := by
  unfold request
  split
  · rename_i item hitem
    refine forall_deliver hp (hp item ?_) hw hs
    simp [Pipeline.carried, hitem]
  · simp only [handed, Activity.taken, List.forall_mem_append]
    exact ⟨⟨hp, hw⟩, hs⟩

theorem forall_begin {call : Call} (hp : ∀ i ∈ s.pipeline.carried, P i)
    (hs : ∀ i ∈ s.answers.flatMap Answer.given, P i) : ∀ i ∈ (s.begin call).handed, P i := by
  cases call with
  | pull => exact forall_request hp (List.forall_mem_nil _) hs
  | next =>
    simp only [begin]
    split
    · exact forall_answer hp (List.forall_mem_nil _) hs
    · exact forall_request hp (List.forall_mem_nil _) hs
  | takeAll =>
    simp only [handed, begin, Activity.taken, List.append_nil, List.forall_mem_append]
    exact ⟨hp, hs⟩
  | close =>
    simp only [handed, begin, Activity.taken, Pipeline.carried, List.append_nil,
      List.forall_mem_append] at hp ⊢
    exact ⟨⟨hp.1.1, hp.2⟩, hs⟩

/-- What the reader takes has been carried. -/
theorem forall_offers {received : Option Item} (h : p.Offers received q) (hp : ∀ i ∈ p.carried, P i) :
    (∀ i ∈ received, P i) ∧ ∀ i ∈ q.carried, P i := by
  simp only [Pipeline.carried, List.forall_mem_append] at hp ⊢
  obtain ⟨⟨ho, hq⟩, ht⟩ := hp
  cases h with
  | queued hqueue =>
    obtain ⟨hitem, hrest⟩ := List.forall_mem_cons.mp (hqueue ▸ hq)
    exact ⟨by simpa using hitem, ⟨ho, hrest⟩, ht⟩
  | handed hqueue houtbox =>
    obtain ⟨hitem, hrest⟩ := List.forall_mem_cons.mp (houtbox ▸ ho)
    exact ⟨by simpa using hitem, ⟨hrest, hq⟩, ht⟩
  | ended => exact ⟨fun i hi => (by cases hi), ⟨ho, hq⟩, ht⟩

theorem forall_accept {received : Option Item} (hint : ∀ message, P (Pipeline.interruption message))
    (hr : ∀ i ∈ received, P i) (hp : ∀ i ∈ p.carried, P i) :
    P (p.accept received).1 ∧ ∀ i ∈ (p.accept received).2.carried, P i := by
  have hitem : P (p.accept received).1 := by
    cases received with
    | none => exact hint _
    | some item => exact hr item rfl
  refine ⟨hitem, ?_⟩
  simp only [Pipeline.accept] at hitem ⊢
  split
  · simp only [Pipeline.carried, Option.toList_some, List.forall_mem_append,
      List.forall_mem_singleton] at hp ⊢
    exact ⟨hp.1, hitem⟩
  · exact hp

theorem forall_afterClose (hint : ∀ message, P (Pipeline.interruption message))
    (hp : ∀ i ∈ p.carried, P i) : ∀ i ∈ p.afterClose.carried, P i := by
  unfold Pipeline.afterClose
  split
  · exact hp
  · simp only [Pipeline.carried, Option.toList_some, List.forall_mem_append,
      List.forall_mem_singleton] at hp ⊢
    exact ⟨hp.1, hint _⟩

theorem forall_react (hint : ∀ message, P (Pipeline.interruption message))
    (h : ∀ i ∈ s.handed, P i) (hm : s.Reacts t) : ∀ i ∈ t.handed, P i := by
  simp only [handed, List.forall_mem_append] at h
  obtain ⟨⟨hp, htaken⟩, hs⟩ := h
  cases hm with
  | begins => exact forall_begin hp hs
  | receives hact hoffers =>
    rw [hact] at htaken
    obtain ⟨hr, hq⟩ := forall_offers hoffers hp
    obtain ⟨hitem, haccept⟩ := forall_accept hint hr hq
    exact forall_deliver haccept hitem htaken hs
  | tells hact =>
    rw [hact] at htaken
    exact forall_answer hp htaken hs
  | requests hact =>
    rw [hact] at htaken
    exact forall_request hp htaken hs
  | closes => exact forall_answer (forall_afterClose hint hp) (List.forall_mem_nil _) hs

/-- What is found in a move of the worker is handed on. -/
theorem forall_advance (h : ∀ i ∈ s.handed, P i)
    (hnew : s.pipeline.worker.outbox = [] → q.worker = s.pipeline.worker.scan →
      ∀ i ∈ s.pipeline.worker.scan.outbox, P i)
    (hm : s.pipeline.Advances q) : ∀ i ∈ { s with pipeline := q }.handed, P i := by
  simp only [handed, Pipeline.carried, List.forall_mem_append] at h
  obtain ⟨⟨⟨⟨ho, hq⟩, ht⟩, htaken⟩, hs⟩ := h
  simp only [handed, Pipeline.carried, List.forall_mem_append]
  refine ⟨⟨?_, htaken⟩, hs⟩
  cases hm with
  | scans houtbox => exact ⟨⟨hnew houtbox rfl, hq⟩, ht⟩
  | stops => exact ⟨⟨List.forall_mem_nil _, hq⟩, ht⟩
  | hands houtbox =>
    obtain ⟨hitem, hrest⟩ := List.forall_mem_cons.mp (houtbox ▸ ho)
    refine ⟨⟨hrest, ?_⟩, ht⟩
    simp only [List.forall_mem_append, List.forall_mem_singleton]
    exact ⟨hq, hitem⟩

end Session

/-! ## What the worker does -/

namespace Worker

/-- What may become of a worker in one move of a session. -/
inductive Does (w : Worker) : Worker → Prop
  | rests : Does w w
  | hands {item : Item} {outbox : List Item} (h : w.outbox = item :: outbox) : Does w { w with outbox }
  | scans (h : w.outbox = []) : Does w w.scan
  | stops : Does w w.stop

/-- The worker has found nothing but items of the source, and stands where it has read to. -/
structure Reads (doc : Document) (source : List UInt8) (mode : Mode) (w : Worker) : Prop where
  base : w.base = doc.base
  current : ∀ s, w.state = some s → s.cursor.seen = w.seen
  pending : w.pending ⊆ (Trace.ofSource mode source).items doc.base

variable {doc : Document} {source : List UInt8} {mode : Mode} {w v : Worker}

theorem reads_start : (start mode doc.base source).Reads doc source mode := by
  refine ⟨rfl, ?_, List.Subset.refl _⟩
  intro s hs
  cases hs
  rfl

theorem reads_scan (h : w.Reads doc source mode) : w.scan.Reads doc source mode ∧ w.seen ≤ w.scan.seen ∧
    ∀ i ∈ w.scan.outbox, i ∈ w.outbox ∨ i.pos ≤ doc.base + w.scan.seen := by
  have hpending := h.pending
  rw [← pending_scan] at hpending
  obtain ⟨mode', base, _ | s, outbox, seen⟩ := w
  · exact ⟨h, Nat.le_refl _, fun i hi => .inl hi⟩
  · obtain rfl : base = doc.base := h.base
    obtain rfl : s.cursor.seen = seen := h.current s rfl
    have hsees := s.step_sees mode'
    cases hs : s.step mode' with
    | next found t =>
      rw [hs] at hsees
      obtain ⟨hsights, hfound⟩ := hsees
      simp only [scan, hs] at hpending ⊢
      refine ⟨⟨rfl, ?_, hpending⟩, hsights.seen, ?_⟩
      · intro u hu
        cases hu
        rfl
      · intro i hi
        refine (List.mem_append.mp hi).imp_right fun hi => ?_
        obtain ⟨l, hl, rfl⟩ := List.mem_map.mp hi
        exact Nat.add_le_add_left (hfound l hl) _
    | halt terminal c =>
      rw [hs] at hsees
      obtain ⟨hsights, hstart⟩ := hsees
      simp only [scan, hs] at hpending ⊢
      refine ⟨⟨rfl, fun _ hs => (by cases hs), hpending⟩, hsights.seen, ?_⟩
      intro i hi
      refine (List.mem_append.mp hi).imp_right fun hi => ?_
      obtain rfl := List.mem_singleton.mp hi
      cases terminal <;> exact Nat.add_le_add_left hstart _

theorem Reads.does (h : w.Reads doc source mode) (hd : w.Does v) :
    v.Reads doc source mode ∧ w.seen ≤ v.seen := by
  cases hd with
  | rests => exact ⟨h, Nat.le_refl _⟩
  | hands houtbox =>
    refine ⟨⟨h.base, h.current, fun i hi => h.pending ?_⟩, Nat.le_refl _⟩
    simp only [Worker.pending, houtbox, List.cons_append] at hi ⊢
    exact List.mem_cons_of_mem _ hi
  | scans => exact ⟨(reads_scan h).1, (reads_scan h).2.1⟩
  | stops => exact ⟨⟨h.base, fun _ hs => (by cases hs), List.nil_subset _⟩, Nat.le_refl _⟩

end Worker

/-- What a pipeline knows of its scan. -/
def Pipeline.scanned (p : Pipeline) : Worker × Document × List UInt8 := (p.worker, p.initial, p.source)

namespace Session

variable {s t : Session} {p q : Pipeline}

theorem scanned_deliver (s : Session) (wait : Wait) (item : Item) (p : Pipeline) :
    (s.deliver wait item p).pipeline.scanned = p.scanned := by
  cases wait <;> rfl

theorem scanned_request (s : Session) (wait : Wait) :
    (s.request wait).pipeline.scanned = s.pipeline.scanned := by
  unfold request
  split
  · exact scanned_deliver ..
  · rfl

theorem scanned_begin (s : Session) (call : Call) :
    (s.begin call).pipeline.scanned = s.pipeline.scanned := by
  cases call with
  | pull => exact scanned_request ..
  | next =>
    simp only [begin]
    split
    · rfl
    · exact scanned_request ..
  | takeAll | close => rfl

theorem scanned_accept (p : Pipeline) (received : Option Item) :
    (p.accept received).2.scanned = p.scanned := by
  simp only [Pipeline.accept]
  split <;> rfl

theorem scanned_afterClose (p : Pipeline) : p.afterClose.scanned = p.scanned := by
  unfold Pipeline.afterClose
  split <;> rfl

/-- The pipeline goes on with the same scan. -/
structure Goes (p q : Pipeline) : Prop where
  worker : p.worker.Does q.worker
  initial : q.initial = p.initial
  source : q.source = p.source

theorem Goes.congr {r : Pipeline} (h : Goes p q) (hr : r.scanned = q.scanned) : Goes p r := by
  obtain ⟨hworker, hinitial, hsource⟩ : r.worker = q.worker ∧ r.initial = q.initial ∧
    r.source = q.source := by simpa [Pipeline.scanned] using hr
  exact ⟨hworker ▸ h.worker, hinitial.trans h.initial, hsource.trans h.source⟩

theorem Goes.of_scanned (h : q.scanned = p.scanned) : Goes p q :=
  Goes.congr ⟨.rests, rfl, rfl⟩ h

theorem goes_offers {received : Option Item} (h : p.Offers received q) : Goes p q := by
  cases h with
  | queued => exact .of_scanned rfl
  | handed hqueue houtbox => exact ⟨.hands houtbox, rfl, rfl⟩
  | ended => exact .of_scanned rfl

theorem goes_advance (hm : p.Advances q) : Goes p q := by
  cases hm with
  | scans houtbox => exact ⟨.scans houtbox, rfl, rfl⟩
  | stops => exact ⟨.stops, rfl, rfl⟩
  | hands houtbox => exact ⟨.hands houtbox, rfl, rfl⟩

theorem goes_react (hm : s.Reacts t) : Goes s.pipeline t.pipeline := by
  cases hm with
  | begins => exact .of_scanned (scanned_begin ..)
  | receives hactivity hoffers =>
    exact (goes_offers hoffers).congr ((scanned_deliver ..).trans (scanned_accept ..))
  | tells => exact .of_scanned rfl
  | requests => exact .of_scanned (scanned_request ..)
  | closes => exact .of_scanned (scanned_afterClose _)

theorem goes_move {party : Party} (hm : s.move? party = some t) : Goes s.pipeline t.pipeline := by
  obtain ⟨q, hq, rfl⟩ | hr := advances_or_reacts hm
  · exact goes_advance hq
  · exact goes_react hr

/-! ## The invariant -/

/-- All that has been handed on is an item of the source up to whose start the source has been read, but
for errors that no place in the source is to blame for. -/
structure Reads (doc : Document) (source : List UInt8) (mode : Mode) (s : Session) : Prop where
  initial_eq : s.pipeline.initial = doc
  source_eq : s.pipeline.source = source
  worker : s.pipeline.worker.Reads doc source mode
  handed : ∀ i ∈ s.handed, i.pos = 0 ∨
    (i ∈ (Trace.ofSource mode source).items doc.base ∧ i.pos ≤ doc.base + s.pipeline.worker.seen)

variable {doc : Document} {source : List UInt8} {mode : Mode}

theorem reads_start {capacity : Nat} (h : Pipeline.start doc source mode capacity = .ok p)
    (calls : List Call) : (start p calls).Reads doc source mode := by
  unfold Pipeline.start at h
  split at h
  · cases h
    exact ⟨rfl, rfl, Worker.reads_start, List.forall_mem_nil _⟩
  · cases h

theorem reads_move {party : Party} (h : s.Reads doc source mode) (hm : s.move? party = some t) :
    t.Reads doc source mode ∧ s.pipeline.worker.seen ≤ t.pipeline.worker.seen := by
  have hgoes := goes_move hm
  obtain ⟨hworker, hle⟩ := h.worker.does hgoes.worker
  refine ⟨⟨hgoes.initial.trans h.initial_eq, hgoes.source.trans h.source_eq, hworker, ?_⟩, hle⟩
  have hkept : ∀ i ∈ s.handed, i.pos = 0 ∨ (i ∈ (Trace.ofSource mode source).items doc.base ∧
      i.pos ≤ doc.base + t.pipeline.worker.seen) := fun i hi =>
    (h.handed i hi).imp_right fun hin => ⟨hin.1, by omega⟩
  obtain ⟨q, hq, rfl⟩ | hr := advances_or_reacts hm
  · -- only a scan finds items, and it has read up to each of them
    refine forall_advance hkept (fun houtbox hscan i hi => .inr ?_) hq
    rw [hscan] at hworker ⊢
    refine ⟨hworker.pending (List.mem_append_left _ hi), ?_⟩
    rcases (Worker.reads_scan h.worker).2.2 i hi with hold | hle
    · rw [houtbox] at hold
      cases hold
    · exact hle
  · exact forall_react (fun _ => .inl rfl) hkept hr

theorem reads_run (h : s.Reads doc source mode) (schedule : List Party) :
    (s.run schedule).Reads doc source mode ∧
      s.pipeline.worker.seen ≤ (s.run schedule).pipeline.worker.seen := by
  induction schedule generalizing s with
  | nil => exact ⟨h, Nat.le_refl _⟩
  | cons party schedule ih =>
    have hturn : (s.turn party).Reads doc source mode ∧
        s.pipeline.worker.seen ≤ (s.turn party).pipeline.worker.seen := by
      unfold turn
      cases hm : s.move? party with
      | none => exact ⟨h, Nat.le_refl _⟩
      | some t => exact reads_move h hm
    obtain ⟨hreads, hle⟩ := ih hturn.1
    exact ⟨hreads, Nat.le_trans hturn.2 hle⟩

end Session

/-! ## Locations -/

theorem Trace.exists_spans {mode : Mode} {source : List UInt8} {base : Nat} {item : Item}
    (h : item ∈ (ofSource mode source).items base) : ∃ start stop, item.Spans base source start stop := by
  obtain ⟨hspans, -⟩ := items_spans mode source base
  obtain ⟨i, hi, rfl⟩ := List.getElem_of_mem h
  exact ⟨_, _, hspans.get hi (hspans.length_eq ▸ hi)⟩

/-- In a document of which nothing had been noted every item has the location of its start in the text, from
the moment on at which the worker has found it; so does every place that a head has passed. -/
theorem Document.location_of_handed {doc : Document} {source : List UInt8} (hfresh : doc.IsFresh)
    (hsize : source.length = doc.size) (hbase : 0 < doc.base) (mode : Mode) :
    (∀ capacity, ∃ p, Pipeline.start doc source mode capacity = .ok p ∧ ∀ calls schedule,
      ∀ item ∈ ((Session.start p calls).run schedule).handed, item.pos ≠ 0 →
        item ∈ (Trace.ofSource mode source).items doc.base ∧
        ∃ start stop, item.Spans doc.base source start stop ∧
          ∀ more, ((Session.start p calls).run (schedule ++ more)).pipeline.document.location item.pos
            true = .ok (Location.inText doc.name source start)) ∧
      ∀ motions s more t, (Scribe.start doc).run source motions = some s → s.run source more = some t →
        ∀ start ≤ s.head.pos, t.doc.location (doc.base + start) true =
          .ok (Location.inText doc.name source start) := by
  constructor
  · intro capacity
    have hp : Pipeline.start doc source mode capacity = .ok _ := if_pos hsize
    refine ⟨_, hp, ?_⟩
    intro calls schedule item hitem hpos
    obtain ⟨hreads, -⟩ := Session.reads_run (Session.reads_start hp calls) schedule
    obtain ⟨hmem, hseen⟩ := (hreads.handed item hitem).resolve_left hpos
    obtain ⟨start, stop, hspans⟩ := Trace.exists_spans hmem
    refine ⟨hmem, start, stop, hspans, fun more => ?_⟩
    obtain ⟨hlater, hle⟩ := Session.reads_run hreads more
    rw [Session.run_append, Pipeline.document, hlater.initial_eq, hlater.source_eq, hspans.pos]
    rw [hspans.pos] at hseen
    have hin : start ≤ source.length := Nat.le_trans hspans.ordered hspans.inside
    exact hfresh.location_readLines hsize hbase hin (by omega) true
  · intro motions s more t hs ht start hstart
    obtain ⟨seen, -, hnoted⟩ := Scribe.noted_run (Scribe.noted_start doc source) hs
    obtain ⟨further, hle, hlater⟩ := Scribe.noted_run hnoted ht
    rw [hlater.lines]
    have hseen := Nat.le_trans hstart hnoted.pos
    exact hfresh.location_readLines hsize hbase (Nat.le_trans hseen hnoted.inside)
      (Nat.le_trans hseen hle) true

/-- The worker has read the line feed behind the name, and may go on to the other line. -/
theorem Document.location_of_handed_name :
    let doc : Document := { name := "a", base := 7, size := 18 }
    let source := "scalar A\n\nscalar B".toUTF8.data.toList
    doc.IsFresh ∧ source.length = doc.size ∧ 0 < doc.base ∧
      ∃ p, Pipeline.start doc source {} 1 = .ok p ∧ ∀ more,
        ((Session.start p [.next]).run (List.replicate 8 .worker ++ more)).pipeline.document.location 14
          true = .ok (Location.inText "a" source 7) := by
  intro doc source
  have hfresh : doc.IsFresh := ⟨rfl, rfl⟩
  have hsize : source.length = doc.size := by decide +kernel
  have hbase : 0 < doc.base := by decide
  obtain ⟨p, hp, hlocations⟩ := (Document.location_of_handed hfresh hsize hbase {}).1 1
  refine ⟨hfresh, hsize, hbase, p, hp, ?_⟩
  obtain rfl : _ = p := Except.ok.inj ((if_pos hsize).symm.trans hp)
  let started : Pipeline := ⟨doc, source, 1, Worker.start {} doc.base source, [], true, none, false⟩
  have hitem : (⟨.ident, 14, "A", 1⟩ : Item) ∈
      ((Session.start started [.next]).run (List.replicate 8 .worker)).handed := by decide +kernel
  obtain ⟨-, start, stop, hspans, hlater⟩ := hlocations _ _ _ hitem (by decide)
  obtain rfl : 7 = start := Nat.add_left_cancel hspans.pos
  exact hlater

end SchemaScan
