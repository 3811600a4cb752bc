import SchemaScan.Proofs.Stream.Harvests

/-! # Liveness

No session gets stuck. A worker that waits for room in the queue and a reader that waits for the worker
are never found together: a reader that wants an item leaves room, and a reader that has stopped listening
makes the worker give up at the item in its hands. So every call comes back, in whatever order calls are
made and however often the reader stops listening. A reader that is thrown away closes its pipeline as its
last call.
-/
namespace SchemaScan

/-- What the worker has given up or brought to its end stays so. -/
theorem Worker.Does.ended {w v : Worker} (h : w.Does v) (hw : w.state = none ∧ w.outbox = []) :
    v.state = none ∧ v.outbox = [] := by
  cases h with
  | rests => exact hw
  | hands houtbox =>
    rw [hw.2] at houtbox
    cases houtbox
  | scans =>
    rw [Worker.scan, hw.1]
    exact hw
  | stops => exact ⟨rfl, rfl⟩

namespace Session

variable {s t : Session} {p q : Pipeline}

/-- One of the parties makes a move. -/
def Moves (s t : Session) : Prop := ∃ party, s.move? party = some t

/-- The worker has an item in its hands that it cannot hand on. -/
def IsWorkerBlocked (s : Session) : Prop :=
  s.pipeline.worker.outbox ≠ [] ∧ s.move? .worker = none

/-- The reader waits for an item, or for the end of the worker. -/
def IsReaderBlocked (s : Session) : Prop :=
  ((∃ wait, s.activity = .receiving wait) ∨ s.activity = .joining) ∧ s.move? .reader = none

/-! ## What a reader that has stopped listening leaves behind -/

theorem Goes.hasEnded (h : Goes p q) (hp : p.hasEnded = true) : q.hasEnded = true := by
  simp only [Pipeline.hasEnded, Bool.and_eq_true, decide_eq_true_eq] at hp ⊢
  exact h.worker.ended hp

theorem closed_deliver {wait : Wait} {item : Item}
    (h : .closed ∈ (s.deliver wait item p).answers) : .closed ∈ s.answers := by
  cases wait <;> simpa [deliver, answer] using h

theorem closed_request {wait : Wait} (h : .closed ∈ (s.request wait).answers) :
    .closed ∈ s.answers := by
  unfold request at h
  split at h
  · exact closed_deliver h
  · exact h

theorem closed_begin {call : Call} (h : .closed ∈ (s.begin call).answers) : .closed ∈ s.answers := by
  cases call with
  | pull => exact closed_request h
  | next =>
    simp only [begin] at h
    split at h
    · simpa [answer] using h
    · exact closed_request h
  | takeAll | close => exact h

/-- The reader is told that the pipeline is closed only after the worker has ended. -/
theorem closed_react (hm : s.Reacts t) (h : .closed ∈ t.answers) :
    .closed ∈ s.answers ∨ s.pipeline.hasEnded = true := by
  cases hm with
  | @begins call calls => exact .inl (closed_begin (s := { s with calls }) h)
  | receives => exact .inl (closed_deliver h)
  | tells => exact .inl (by simpa [answer] using h)
  | requests => exact .inl (closed_request h)
  | closes hactivity hended => exact .inr hended

theorem closed_move (hm : s.Moves t) (h : .closed ∈ t.answers) :
    .closed ∈ s.answers ∨ s.pipeline.hasEnded = true := by
  obtain ⟨party, hm⟩ := hm
  obtain ⟨q, -, rfl⟩ | hr := advances_or_reacts hm
  · exact .inl h
  · exact closed_react hr h

/-- If the reader has been told that its pipeline is closed, then the worker has ended. -/
def ClosesLast (s : Session) : Prop := .closed ∈ s.answers → s.pipeline.hasEnded = true

theorem ClosesLast.move (h : s.ClosesLast) (hm : s.Moves t) : t.ClosesLast := by
  intro hclosed
  have hended := (closed_move hm hclosed).elim h id
  obtain ⟨party, hm⟩ := hm
  have hgoes := goes_move hm
  exact hgoes.hasEnded hended

/-! ## Sessions -/

/-- What every step of a session keeps, all of its steps keep. -/
theorem Reaches.induction {P : Session → Prop} (h : s.Reaches t) (hs : P s)
    (hmove : ∀ u v, P u → u.Moves v → P v) : P t := by
  obtain ⟨schedule, rfl⟩ := h
  induction schedule generalizing s with
  | nil => exact hs
  | cons party schedule ih =>
    apply ih
    unfold turn
    cases hm : s.move? party with
    | none => exact hs
    | some u => exact hmove s u hs ⟨party, hm⟩

/-- A session that does not get stuck. -/
structure IsLive (s : Session) : Prop where
  /-- While the reader has calls to finish, some party can move. -/
  moves : ¬ s.IsDone → ∃ t, s.Moves t
  /-- The parties do not wait for each other. -/
  apart : ¬ (s.IsWorkerBlocked ∧ s.IsReaderBlocked)
  /-- The worker does not outlive the call that closes its pipeline. -/
  ended : .closed ∈ s.answers → s.pipeline.hasEnded = true
  /-- There are no moves without an end, whichever party makes them. -/
  ends : Acc (fun u v => v.Moves u) s

variable {all : List Item} {expected : List Answer}

theorem Holds.ends (hall : Item.Closed all) (h : s.Holds all expected) :
    Acc (fun u v => v.Moves u) s := by
  induction hr : s.rank using less_wf.induction generalizing s with
  | _ r ih =>
    refine ⟨s, fun t ⟨party, hm⟩ => ?_⟩
    exact ih t.rank (hr ▸ less_of_move hall h hm) (holds_move hall h hm) rfl

theorem Holds.isLive (hall : Item.Closed all) (h : s.Holds all expected) (hc : s.ClosesLast) :
    s.IsLive := by
  have hmoves (hd : ¬ s.IsDone) : ∃ t, s.Moves t := by
    obtain ⟨party, t, hm⟩ := exists_move h hd
    exact ⟨t, party, hm⟩
  refine ⟨hmoves, ?_, hc, h.ends hall⟩
  rintro ⟨⟨-, hworker⟩, hact, hreader⟩
  have hd : ¬ s.IsDone := by
    rintro ⟨hidle, -⟩
    simp [hidle] at hact
  obtain ⟨t, _ | _, hm⟩ := hmoves hd
  · rw [hworker] at hm
    cases hm
  · rw [hreader] at hm
    cases hm

/-- Whatever the source and the capacity of the queue, and wherever a session has come to, it is not
stuck. -/
theorem isLive_of_reaches {doc : Document} {source : List UInt8} {mode : Mode} {capacity : Nat}
    (hstart : Pipeline.start doc source mode capacity = .ok p) (calls : List Call)
    (hs : (start p calls).Reaches s) : s.IsLive := by
  have hall := Trace.items_closed mode source doc.base
  obtain ⟨hterminal, hexhausted, hopen, hpending⟩ := Pipeline.fresh_of_start hstart
  let all := (Trace.ofSource mode source).items doc.base
  have hholds : s.Holds all (Bookmark.first.answers all calls) ∧ s.ClosesLast := by
    apply hs.induction
    · refine ⟨holds_start calls hopen hterminal hexhausted hpending hall, ?_⟩
      intro hclosed
      cases hclosed
    · rintro u v ⟨hu, hc⟩ hm
      refine ⟨?_, hc.move hm⟩
      obtain ⟨party, hm⟩ := hm
      exact holds_move hall hu hm
  exact hholds.1.isLive hall hholds.2

/-- Without a queue, and with a reader that stops listening, for the first of two times, while the worker
has an item in its hands. -/
theorem isLive_of_reaches_closing :
    ∃ p s, Pipeline.start { name := "a", base := 1, size := 5 }
        [0x74, 0x79, 0x70, 0x65, 0x0A] {} 0 = .ok p ∧
      (start p [.close, .close]).Reaches s ∧ s.pipeline.worker.outbox.length = 1 ∧
      s.activity = .joining ∧ s.IsLive := by
  have hstart : Pipeline.start { name := "a", base := 1, size := 5 }
      [0x74, 0x79, 0x70, 0x65, 0x0A] {} 0 = .ok _ := rfl
  refine ⟨_, _, hstart, ⟨[.worker, .reader], rfl⟩, ?_, ?_,
    isLive_of_reaches hstart _ ⟨[.worker, .reader], rfl⟩⟩
  · decide +kernel
  · decide +kernel

end Session

end SchemaScan
