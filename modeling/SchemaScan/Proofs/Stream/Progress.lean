import SchemaScan.Proofs.Stream.Answers

/-! # Progress of a session

While a call is unanswered, the worker or the reader can move: the worker never waits for room in the
queue while the reader waits for an item or for the worker's end. Moves use up calls, items and what
is left to scan, so every session comes to its end.
-/
namespace SchemaScan

namespace Session

variable {all : List Item} {expected : List Answer} {s t : Session}

/-- All calls are answered. -/
def IsDone (s : Session) : Prop := s.activity = .idle ∧ s.calls = []

theorem holds_move (hall : Item.Closed all) (h : s.Holds all expected) {party : Party}
    (hm : s.move? party = some t) : t.Holds all expected := by
  obtain ⟨q, hq, rfl⟩ | hr := advances_or_reacts hm
  · exact holds_advance h hq
  · exact holds_react hall h hr

theorem holds_run (hall : Item.Closed all) (h : s.Holds all expected) (schedule : List Party) :
    (s.run schedule).Holds all expected := by
  induction schedule generalizing s with
  | nil => exact h
  | cons party schedule ih =>
    apply ih
    unfold turn
    cases hm : s.move? party with
    | none => exact h
    | some t => exact holds_move hall h hm

/-- Once nobody listens any more, the worker can move until it has ended. -/
theorem exists_advances {p : Pipeline} (hclosed : p.isOpen = false) (he : p.hasEnded = false) :
    ∃ q, p.Advances q := by
  cases houtbox : p.worker.outbox with
  | nil =>
    refine ⟨_, .scans houtbox fun hstate => ?_⟩
    simp [Pipeline.hasEnded, hstate, houtbox] at he
  | cons item outbox => exact ⟨_, .stops houtbox hclosed⟩

/-- While a call is unanswered, some party can move. -/
theorem exists_move (h : s.Holds all expected) (hd : ¬ s.IsDone) :
    ∃ party t, s.move? party = some t := by
  obtain ⟨b, hk, hw, hc, -⟩ := h
  have byWorker {q : Pipeline} (hq : s.pipeline.Advances q) : ∃ party t, s.move? party = some t :=
    ⟨.worker, _, advance?_eq_some_iff.mpr ⟨q, hq, rfl⟩⟩
  have byReader {t : Session} (ht : s.Reacts t) : ∃ party t, s.move? party = some t :=
    ⟨.reader, t, react?_eq_some_iff.mpr ht⟩
  cases hact : s.activity with
  | idle =>
    cases hcalls : s.calls with
    | nil => exact absurd ⟨hact, hcalls⟩ hd
    | cons call calls => exact byReader (.begins hact hcalls)
  | taking taken =>
    cases hexhausted : s.pipeline.isExhausted with
    | true => exact byReader (.tells hact hexhausted)
    | false => exact byReader (.requests hact hexhausted)
  | receiving wait =>
    have hnone : s.pipeline.terminal = none := by
      simp only [Waits, hact] at hw
      exact hw
    obtain ⟨hopen, -⟩ := hc hnone (by simp [hact])
    cases hqueue : s.pipeline.queue with
    | cons item queue => exact byReader (.receives hact (.queued hqueue))
    | nil =>
      -- with an empty queue either the reader can take what the worker has, or the worker can move
      cases houtbox : s.pipeline.worker.outbox with
      | cons item outbox =>
        rcases Nat.eq_zero_or_pos s.pipeline.capacity with hcapacity | hcapacity
        · exact byReader (.receives hact (.handed hqueue houtbox hcapacity))
        · exact byWorker (.hands houtbox hopen (hqueue ▸ hcapacity))
      | nil =>
        by_cases hstate : s.pipeline.worker.state = none
        · exact byReader (.receives hact (.ended hqueue houtbox hstate))
        · exact byWorker (.scans houtbox hstate)
  | joining =>
    cases hended : s.pipeline.hasEnded with
    | true => exact byReader (.closes hact hended)
    | false =>
      simp only [Waits, hact] at hw
      obtain ⟨q, hq⟩ := exists_advances hw hended
      exact byWorker hq

/-! ## Moves come to an end -/

/-- How often the reader can at most be given an item before there is no other. -/
def unseen (p : Pipeline) : Nat := if p.isExhausted then 0 else p.pending.length + 1

theorem unseen_le {p q : Pipeline} (he : q.isExhausted = p.isExhausted)
    (hp : q.pending.length ≤ p.pending.length) : unseen q ≤ unseen p := by
  unfold unseen
  rw [he]
  split
  · exact Nat.le_refl _
  · exact Nat.succ_le_succ hp

/-- What the reader still has to do in the call at hand. -/
def effort (s : Session) : Nat :=
  match s.activity with
  | .idle => 0
  | .receiving (.takeAll _) => 2 * unseen s.pipeline + 1
  | .taking _ => 2 * unseen s.pipeline + 2
  | .receiving _ | .joining => 1

/-- What is left to do: calls to begin, items to take in the call at hand, steps of the scan, items
in the hands of the worker. -/
def rank (s : Session) : Nat × Nat × Nat × Nat :=
  (s.calls.length, s.effort, s.pipeline.worker.measure, s.pipeline.worker.outbox.length)

/-- Less is left to do, and the first thing that changes becomes less. -/
def Less : Nat × Nat × Nat × Nat → Nat × Nat × Nat × Nat → Prop :=
  Prod.Lex (· < ·) (Prod.Lex (· < ·) (Prod.Lex (· < ·) (· < ·)))

theorem less_wf : WellFounded Less :=
  (Prod.lex ⟨_, Nat.lt_wfRel.wf⟩ (Prod.lex ⟨_, Nat.lt_wfRel.wf⟩
    (Prod.lex ⟨_, Nat.lt_wfRel.wf⟩ ⟨_, Nat.lt_wfRel.wf⟩))).wf

theorem less_of_calls {a b : Session} (h : a.calls.length < b.calls.length) :
    Less a.rank b.rank := .left _ _ h

theorem less_of_effort {a b : Session} (hc : a.calls = b.calls) (h : a.effort < b.effort) :
    Less a.rank b.rank := by
  unfold rank
  rw [hc]
  exact .right _ (.left _ _ h)

theorem less_of_worker {a b : Session} (hc : a.calls = b.calls) (he : a.effort ≤ b.effort)
    (hm : a.pipeline.worker.measure ≤ b.pipeline.worker.measure)
    (h : a.pipeline.worker.measure < b.pipeline.worker.measure ∨
      a.pipeline.worker.outbox.length < b.pipeline.worker.outbox.length) :
    Less a.rank b.rank := by
  rcases Nat.lt_or_eq_of_le he with he | he
  · exact less_of_effort hc he
  · unfold rank
    rw [hc, he]
    refine .right _ (.right _ ?_)
    rcases Nat.lt_or_eq_of_le hm with hm | hm
    · exact .left _ _ hm
    · rw [hm] at h ⊢
      exact .right _ (h.resolve_left (Nat.lt_irrefl _))

/-- With as many items on their way or fewer the reader has as much to do or less. -/
theorem effort_le {p : Pipeline} (he : p.isExhausted = s.pipeline.isExhausted)
    (hp : p.pending.length ≤ s.pipeline.pending.length) :
    { s with pipeline := p }.effort ≤ s.effort := by
  have hunseen := unseen_le he hp
  unfold effort
  cases s.activity with
  | idle => exact Nat.le_refl _
  | joining => exact Nat.le_refl _
  | taking taken =>
    simp only
    omega
  | receiving wait =>
    cases wait with
    | pull => exact Nat.le_refl _
    | next => exact Nat.le_refl _
    | takeAll taken =>
      simp only
      omega

theorem less_of_advance {q : Pipeline} (hm : s.pipeline.Advances q) :
    Less { s with pipeline := q }.rank s.rank := by
  cases hm with
  | scans houtbox hstate =>
    have hlt := Worker.measure_scan_lt hstate
    refine less_of_worker rfl (effort_le rfl ?_) (Nat.le_of_lt hlt) (.inl hlt)
    simp [Pipeline.pending, Worker.pending_scan]
  | stops houtbox =>
    refine less_of_worker rfl (effort_le rfl ?_) (Nat.zero_le _) (.inr ?_)
    · simp [Pipeline.pending, Worker.pending, Worker.stop]
    · simp [Worker.stop, houtbox]
  | hands houtbox =>
    refine less_of_worker rfl (effort_le rfl ?_) (Nat.le_refl _) (.inr ?_)
    · simp [Pipeline.pending, Worker.pending, houtbox]
    · simp [houtbox]

/-- An item that is taken is one less to take. -/
theorem less_of_deliver {wait : Wait} {item : Item} {q : Pipeline} (u : Session)
    (hu : u.calls = s.calls) (he : u.pipeline.isExhausted = false)
    (hact : u.activity = .receiving wait ∨ ∃ taken, wait = .takeAll taken ∧ u.activity = .taking taken)
    (hq : item.isTerminal = true ∨ q.pending.length < u.pipeline.pending.length) :
    Less (s.deliver wait item q).rank u.rank := by
  apply less_of_effort
  · cases wait <;> exact hu.symm
  · cases wait with
    | pull =>
      obtain hact | ⟨taken, hw, -⟩ := hact
      · simp [deliver, answer, effort, hact]
      · cases hw
    | next =>
      obtain hact | ⟨taken, hw, -⟩ := hact
      · simp [deliver, answer, effort, hact]
      · cases hw
    | takeAll taken =>
      have hunseen : unseen { q with isExhausted := item.isTerminal } < unseen u.pipeline := by
        rw [unseen, unseen, he]
        by_cases ht : item.isTerminal = true
        · simp [ht]
        · simpa [ht, Pipeline.pending] using hq.resolve_left ht
      obtain hact | ⟨taken, -, hact⟩ := hact
      · simp only [deliver, effort, hact]
        omega
      · simp only [deliver, effort, hact]
        omega

@[simp] theorem calls_request (s : Session) (wait : Wait) : (s.request wait).calls = s.calls := by
  unfold request
  split
  · cases wait <;> rfl
  · rfl

@[simp] theorem calls_begin (s : Session) (call : Call) : (s.begin call).calls = s.calls := by
  cases call with
  | pull => exact s.calls_request .pull
  | next =>
    simp only [begin]
    split
    · rfl
    · exact s.calls_request .next
  | takeAll | close => rfl

theorem less_of_react (hall : Item.Closed all) (h : s.Holds all expected) (hm : s.Reacts t) :
    Less t.rank s.rank := by
  obtain ⟨b, hk, hw, hc, -⟩ := h
  cases hm with
  | begins hact hcalls =>
    apply less_of_calls
    simp [hcalls]
  | @receives wait received q hact hoffers =>
    have hnone : s.pipeline.terminal = none := by
      simp only [Waits, hact] at hw
      exact hw
    rw [hnone] at hk
    have hfalse : s.pipeline.isExhausted = false := by
      rw [← hk.isTold_eq]
      exact hk.of_none.2.2
    have hpend := hoffers.pending_eq.1
    refine less_of_deliver s rfl hfalse (.inl hact) ?_
    cases received with
    | none => exact .inl rfl
    | some item =>
      rw [hpend]
      by_cases ht : item.isTerminal = true
      · exact .inl ht
      · right
        simp
  | tells hact =>
    refine less_of_effort rfl ?_
    simp [answer, effort, hact]
  | @requests taken hact hexhausted =>
    unfold request
    split
    · rename_i item hi
      rw [hi] at hk
      exact less_of_deliver s rfl hexhausted (.inr ⟨taken, rfl, hact⟩) (.inl (hk.isTerminal hall))
    · refine less_of_effort rfl ?_
      simp [effort, hact]
  | closes hact =>
    refine less_of_effort rfl ?_
    simp [answer, effort, hact]

/-- With every move less is left to do. -/
theorem less_of_move (hall : Item.Closed all) (h : s.Holds all expected) {party : Party}
    (hm : s.move? party = some t) : Less t.rank s.rank := by
  obtain ⟨q, hq, rfl⟩ | hr := advances_or_reacts hm
  · exact less_of_advance hq
  · exact less_of_react hall h hr

theorem answers_prefix (h : s.Holds all expected) : s.answers <+: expected := by
  obtain ⟨b, -, -, -, ha⟩ := h
  exact ⟨_, ha⟩

end Session

end SchemaScan
