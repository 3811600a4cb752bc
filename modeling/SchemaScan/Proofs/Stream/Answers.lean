import SchemaScan.Proofs.Scan.Passage
import SchemaScan.Proofs.Stream.Moves
import SchemaScan.Stream.Bookmark

/-! # Answers of a session

Whatever the schedule and whatever the capacity of the queue, the answers in a session are those of a
bookmark in the list of all items. The invariant says what the answers to come are: every move keeps
them, whoever makes it. Some party can always move until all calls are answered.
-/
namespace SchemaScan

/-! ## Bookmarks in a closed list -/

namespace Item.Closed

variable {all : List Item}

theorem length_pos (h : Item.Closed all) : 0 < all.length := by
  obtain ⟨front, last, rfl, -⟩ := h
  simp

theorem getLast? (h : Item.Closed all) :
    ∃ last, all.getLast? = some last ∧ last.isTerminal = true := by
  obtain ⟨front, last, rfl, hl, -⟩ := h
  exact ⟨last, List.getLast?_concat .., hl⟩

/-- The last item of a closed list is the only terminal one. -/
theorem isTerminal_iff (h : Item.Closed all) {k : Nat} {item : Item} (hk : all[k]? = some item) :
    item.isTerminal = true ↔ k + 1 = all.length := by
  obtain ⟨front, last, rfl, hl, hf⟩ := h
  rcases Nat.lt_or_ge k front.length with hlt | hge
  · rw [List.getElem?_append_left hlt] at hk
    have := hf item (List.mem_of_getElem? hk)
    simp only [this, List.length_append, List.length_singleton]
    constructor
    · intro hc
      cases hc
    · intro hc
      omega
  · rw [List.getElem?_append_right hge] at hk
    rw [List.getElem?_singleton] at hk
    split at hk
    · cases hk
      simp only [hl, List.length_append, List.length_singleton, true_iff]
      omega
    · cases hk

end Item.Closed

namespace Bookmark

variable {all : List Item} {b : Bookmark}

theorem current_of_getElem? {item : Item} (hd : b.isDrained = false)
    (h : all[b.taken]? = some item) : b.current all = item := by
  simp [current, hd, h]

theorem current_of_last {last : Item} (hd : b.isDrained = false) (h : all.length ≤ b.taken)
    (hl : all.getLast? = some last) : b.current all = last := by
  simp [current, hd, List.getElem?_eq_none h, hl]

end Bookmark

/-! ## What a reader knows -/

/-- What the reader has noted of the last item and of having been told, at each bookmark. -/
inductive Knows (all : List Item) : Option Item → Bool → Bookmark → Prop
  /-- There are items to come. -/
  | inside {taken : Nat} (h : taken < all.length) : Knows all none false ⟨taken, false, false⟩
  /-- The last item has been taken. -/
  | behind {taken : Nat} {last : Item} {told : Bool} (h : all.length ≤ taken)
      (hl : all.getLast? = some last) : Knows all (some last) told ⟨taken, false, told⟩
  /-- The reader stopped listening before. -/
  | drained {taken : Nat} :
      Knows all (some (Pipeline.interruption "lexer drained")) true ⟨taken, true, true⟩

namespace Knows

variable {all : List Item} {b : Bookmark} {noted : Option Item} {told : Bool}

theorem isTold_eq (h : Knows all noted told b) : b.isTold = told := by
  cases h <;> rfl

/-- A noted item is the one that comes next. -/
theorem current_eq {item : Item} (h : Knows all (some item) told b) : b.current all = item := by
  cases h with
  | behind h hl => exact Bookmark.current_of_last rfl h hl
  | drained => rfl

/-- A noted item is terminal. -/
theorem isTerminal {item : Item} (hall : Item.Closed all) (h : Knows all (some item) told b) :
    item.isTerminal = true := by
  cases h with
  | behind h hl =>
    obtain ⟨last, hlast, ht⟩ := hall.getLast?
    rw [hl] at hlast
    cases hlast
    exact ht
  | drained => rfl

/-- As long as nothing is noted, there are items to come. -/
theorem of_none (h : Knows all none told b) :
    b.taken < all.length ∧ b.isDrained = false ∧ b.isTold = false := by
  cases h with
  | inside h => exact ⟨h, rfl, rfl⟩

/-- The item that comes next is noted exactly if it is terminal. -/
theorem take {item : Item} (hall : Item.Closed all) (h : Knows all none told b)
    (hi : all[b.taken]? = some item) :
    Knows all (if item.isTerminal then some item else none) told
      { b with taken := b.taken + 1 } := by
  cases h with
  | @inside taken h =>
    have hiff := hall.isTerminal_iff hi
    by_cases ht : item.isTerminal = true
    · rw [if_pos ht]
      have hlen := hiff.mp ht
      refine .behind (Nat.le_of_eq hlen.symm) ?_
      rw [List.getLast?_eq_getElem?, ← hlen, Nat.add_sub_cancel]
      exact hi
    · rw [if_neg ht]
      have hne : taken + 1 ≠ all.length := fun hc => ht (hiff.mpr hc)
      exact .inside (Nat.lt_of_le_of_ne h hne)

theorem takeAgain {item : Item} (h : Knows all (some item) told b) (n : Nat) :
    Knows all (some item) told { b with taken := b.taken + n } := by
  cases h with
  | behind h hl => exact .behind (Nat.le_add_right_of_le h) hl
  | drained => exact .drained

/-- What is left is the next item, and what is left behind it unless it is terminal. -/
theorem left_eq (hall : Item.Closed all) (h : Knows all noted false b) :
    b.left all = if (b.current all).isTerminal then [b.current all]
      else b.current all :: Bookmark.left all { b with taken := b.taken + 1, isTold := false } := by
  cases h with
  | @inside taken h =>
    have hi : all[taken]? = some all[taken] := List.getElem?_eq_getElem h
    have hcur : Bookmark.current all ⟨taken, false, false⟩ = all[taken] :=
      Bookmark.current_of_getElem? rfl hi
    have hiff := hall.isTerminal_iff hi
    rw [hcur, Bookmark.left, if_pos h, List.drop_eq_getElem_cons h]
    by_cases ht : all[taken].isTerminal = true
    · have hlen := hiff.mp ht
      rw [if_pos ht, List.drop_eq_nil_of_le (Nat.le_of_eq hlen.symm)]
    · have hne : taken + 1 ≠ all.length := fun hc => ht (hiff.mpr hc)
      rw [if_neg ht, Bookmark.left, if_pos (Nat.lt_of_le_of_ne h hne)]
  | behind h hl =>
    have hcur := Bookmark.current_of_last (b := ⟨_, false, false⟩) rfl h hl
    obtain ⟨last, hlast, ht⟩ := hall.getLast?
    rw [hl] at hlast
    cases hlast
    rw [hcur, if_pos ht, Bookmark.left, if_neg (Nat.not_lt.mpr h), hcur]

/-- Being told needs a noted item. -/
theorem tell {item : Item} (h : Knows all (some item) told b) :
    Knows all (some item) true { b with isTold := true } := by
  cases h with
  | behind h hl => exact .behind h hl
  | drained => exact .drained

end Knows

/-! ## Moves of a pipeline -/

namespace Pipeline

variable {p q : Pipeline}

/-- The worker changes nothing that the reader has noted. -/
theorem Advances.noted (h : p.Advances q) :
    q.terminal = p.terminal ∧ q.isExhausted = p.isExhausted ∧ q.isOpen = p.isOpen := by
  cases h <;> exact ⟨rfl, rfl, rfl⟩

/-- As long as somebody listens, the worker changes nothing in what is on its way. -/
theorem Advances.pending_eq (h : p.Advances q) (ho : p.isOpen = true) : q.pending = p.pending := by
  cases h with
  | scans => simp [pending, Worker.pending_scan]
  | stops houtbox hclosed =>
    rw [ho] at hclosed
    cases hclosed
  | hands houtbox => simp [pending, Worker.pending, houtbox]

/-- What the reader can take is the first item on its way; there is none only after the last one. -/
theorem Offers.pending_eq {received : Option Item} (h : p.Offers received q) :
    p.pending = received.toList ++ q.pending ∧ q.terminal = p.terminal ∧
      q.isExhausted = p.isExhausted ∧ q.isOpen = p.isOpen := by
  cases h with
  | queued hqueue => exact ⟨by simp [pending, hqueue], rfl, rfl, rfl⟩
  | handed hqueue houtbox =>
    exact ⟨by simp [pending, hqueue, houtbox, Worker.pending], rfl, rfl, rfl⟩
  | ended => exact ⟨rfl, rfl, rfl, rfl⟩

/-- Nothing is on its way once the worker has ended and the queue is empty. -/
theorem Offers.pending_of_none (h : p.Offers none q) : p.pending = [] := by
  cases h with
  | ended hqueue houtbox hstate => simp [pending, Worker.pending, hqueue, houtbox, hstate]

@[simp] theorem pending_accept (p : Pipeline) (received : Option Item) :
    (p.accept received).2.pending = p.pending := by
  simp only [accept]
  split <;> rfl

theorem afterClose_terminal (p : Pipeline) : ∃ item, p.afterClose.terminal = some item := by
  unfold afterClose
  split
  · rename_i item h
    exact ⟨item, h⟩
  · exact ⟨_, rfl⟩

end Pipeline

/-- A reader that stops listening knows what comes next. -/
theorem Knows.close {all : List Item} {p : Pipeline} {b : Bookmark}
    (h : Knows all p.terminal p.isExhausted b) :
    Knows all p.afterClose.terminal p.afterClose.isExhausted (b.answer all .close).2 := by
  unfold Pipeline.afterClose
  generalize ht : p.terminal = noted at h
  generalize hx : p.isExhausted = told at h
  cases h with
  | inside h =>
    simp only [Bookmark.answer, if_pos h]
    exact .drained
  | behind h hl =>
    simp only [Bookmark.answer, if_neg (Nat.not_lt.mpr h), ht, hx]
    exact .behind h hl
  | drained =>
    simp only [Bookmark.answer, ht, hx]
    split <;> exact .drained

/-! ## The invariant -/

namespace Session

/-- The answers to come at a bookmark. -/
def outcome (all : List Item) (b : Bookmark) (s : Session) : List Answer :=
  match s.activity with
  | .idle => b.answers all s.calls
  | .receiving .pull => b.answers all (.pull :: s.calls)
  | .receiving .next => b.answers all (.next :: s.calls)
  | .receiving (.takeAll taken) | .taking taken =>
    if b.isTold then .items taken :: b.answers all s.calls
    else .items (taken ++ b.left all) ::
      Bookmark.answers all { b with taken := b.taken + (b.left all).length, isTold := true } s.calls
  | .joining => b.answers all (.close :: s.calls)

/-- The reader waits for an item only while there are items to come. -/
def Waits (s : Session) : Prop :=
  match s.activity with
  | .receiving _ => s.pipeline.terminal = none
  | .joining => s.pipeline.isOpen = false
  | _ => True

/-- The pipeline still carries the items behind the bookmark, unless the reader has stopped
listening or has taken them all. -/
def Carries (all : List Item) (b : Bookmark) (s : Session) : Prop :=
  s.pipeline.terminal = none → s.activity ≠ .joining →
    s.pipeline.isOpen = true ∧ s.pipeline.pending = all.drop b.taken

/-- The answers given and the answers to come are the expected ones. -/
def Holds (all : List Item) (expected : List Answer) (s : Session) : Prop :=
  ∃ b, Knows all s.pipeline.terminal s.pipeline.isExhausted b ∧ s.Waits ∧ s.Carries all b ∧
    s.answers ++ s.outcome all b = expected

variable {all : List Item} {expected : List Answer} {s t : Session}

theorem holds_start {p : Pipeline} (calls : List Call) (ho : p.isOpen = true)
    (ht : p.terminal = none) (he : p.isExhausted = false) (hp : p.pending = all)
    (hall : Item.Closed all) : (start p calls).Holds all (Bookmark.first.answers all calls) := by
  refine ⟨Bookmark.first, ?_, trivial, ?_, rfl⟩
  · simp only [start, ht, he]
    exact .inside hall.length_pos
  · intro _ _
    exact ⟨ho, hp⟩

theorem holds_advance {q : Pipeline} (h : s.Holds all expected) (hm : s.pipeline.Advances q) :
    { s with pipeline := q }.Holds all expected := by
  obtain ⟨b, hk, hw, hc, ha⟩ := h
  obtain ⟨ht, he, ho⟩ := hm.noted
  refine ⟨b, ?_, ?_, ?_, ha⟩
  · simp only [ht, he]
    exact hk
  · simp only [Waits, ht, ho] at hw ⊢
    exact hw
  · intro hn hj
    rw [ht] at hn
    obtain ⟨hopen, hpend⟩ := hc hn hj
    refine ⟨ho.trans hopen, ?_⟩
    rw [← hpend]
    exact hm.pending_eq hopen

/-- Giving out the item that comes next, which is noted if it is terminal. -/
theorem holds_deliver {wait : Wait} {q : Pipeline} {noted : Option Item} {b : Bookmark}
    (hall : Item.Closed all) (hk : Knows all noted b.isTold b)
    (hq : q.terminal = if (b.current all).isTerminal then some (b.current all) else none)
    (hq' : Knows all q.terminal b.isTold { b with taken := b.taken + 1 })
    (he : q.isExhausted = b.isTold)
    (hc : q.terminal = none → q.isOpen = true ∧ q.pending = all.drop (b.taken + 1))
    (hw : wait ≠ .pull → b.isTold = false)
    (ha : s.answers ++ { s with activity := .receiving wait }.outcome all b = expected) :
    (s.deliver wait (b.current all) q).Holds all expected := by
  have htold (hf : b.isTold = false) :
      Knows all q.terminal (b.current all).isTerminal
        { b with taken := b.taken + 1, isTold := (b.current all).isTerminal } := by
    by_cases ht : (b.current all).isTerminal = true
    · rw [if_pos ht] at hq
      rw [hq] at hq' ⊢
      rw [ht]
      exact hq'.tell
    · rw [Bool.not_eq_true] at ht
      rw [hf] at hq'
      rw [ht, ← hf]
      rwa [← hf] at hq'
  cases wait with
  | pull =>
    refine ⟨{ b with taken := b.taken + 1 }, ?_, trivial, ?_, ?_⟩
    · change Knows all q.terminal q.isExhausted _
      rw [he]
      exact hq'
    · intro hn _
      exact hc hn
    · rw [← ha]
      simp [deliver, answer, outcome, Bookmark.answers, Bookmark.answer]
  | next =>
    have hf := hw (by simp)
    refine ⟨{ b with taken := b.taken + 1, isTold := (b.current all).isTerminal }, ?_, trivial,
      ?_, ?_⟩
    · exact htold hf
    · intro hn _
      exact hc hn
    · rw [← ha]
      simp [deliver, answer, outcome, Bookmark.answers, Bookmark.answer, hf]
  | takeAll taken =>
    have hf := hw (by simp)
    have hleft := Knows.left_eq hall (hf ▸ hk)
    refine ⟨{ b with taken := b.taken + 1, isTold := (b.current all).isTerminal }, ?_, trivial,
      ?_, ?_⟩
    · exact htold hf
    · intro hn _
      exact hc hn
    · rw [← ha]
      by_cases ht : (b.current all).isTerminal = true
      · rw [if_pos ht] at hleft
        simp [deliver, outcome, hf, ht, hleft]
      · rw [if_neg ht] at hleft
        rw [Bool.not_eq_true] at ht
        simp only [deliver, outcome, hf, ht, hleft, Bool.false_eq_true, ↓reduceIte,
          List.append_assoc, List.singleton_append, List.length_cons]
        simp only [Bookmark.left, Bookmark.current, Nat.add_assoc, Nat.add_comm 1]

/-- Asking for an item keeps the answers, whether one is noted or has to be waited for. -/
theorem holds_request {wait : Wait} {b : Bookmark} (hall : Item.Closed all)
    (hk : Knows all s.pipeline.terminal s.pipeline.isExhausted b) (hc : s.Carries all b)
    (hj : s.activity ≠ .joining) (hw : wait ≠ .pull → b.isTold = false)
    (ha : s.answers ++ { s with activity := .receiving wait }.outcome all b = expected) :
    (s.request wait).Holds all expected := by
  have htold := hk.isTold_eq
  unfold request
  split
  · rename_i item hi
    rw [hi, ← htold] at hk
    have hcur := hk.current_eq
    have hterm := hk.isTerminal hall
    rw [← hcur] at hk hterm
    rw [← hcur]
    refine holds_deliver hall hk ?_ ?_ htold.symm ?_ hw ha
    · rw [if_pos hterm, hi, hcur]
    · rw [hi, ← hcur]
      exact hk.takeAgain 1
    · intro hn
      rw [hi] at hn
      cases hn
  · rename_i hn
    refine ⟨b, hk, hn, ?_, ha⟩
    intro _ _
    exact hc hn hj

theorem holds_receive {wait : Wait} {received : Option Item} {q : Pipeline}
    (hall : Item.Closed all) (h : s.Holds all expected) (hact : s.activity = .receiving wait)
    (hr : s.pipeline.Offers received q) :
    (s.deliver wait (q.accept received).1 (q.accept received).2).Holds all expected := by
  obtain ⟨b, hk, hw, hc, ha⟩ := h
  have hnone : s.pipeline.terminal = none := by
    simp only [Waits, hact] at hw
    exact hw
  obtain ⟨hopen, hpend⟩ := hc hnone (by simp [hact])
  rw [hnone] at hk
  obtain ⟨hlt, hdrained, hfalse⟩ := hk.of_none
  have htold := hk.isTold_eq
  have hi : all[b.taken]? = some all[b.taken] := List.getElem?_eq_getElem hlt
  obtain ⟨hq, hqt, hqe, hqo⟩ := hr.pending_eq
  rw [hpend, List.drop_eq_getElem_cons hlt] at hq
  -- something is on its way, so the worker has not ended
  obtain rfl : received = some all[b.taken] := by
    cases received with
    | none =>
      have hempty := hr.pending_of_none
      rw [hpend, List.drop_eq_getElem_cons hlt] at hempty
      cases hempty
    | some item => exact congrArg some (List.cons.inj hq).1.symm
  have hqp : q.pending = all.drop (b.taken + 1) := (List.cons.inj hq).2.symm
  have hcur := Bookmark.current_of_getElem? hdrained hi
  have hnoted := hk.take hall hi
  rw [← hcur] at hnoted ⊢
  have hterminal : (q.accept (some (b.current all))).2.terminal =
      if (b.current all).isTerminal then some (b.current all) else none := by
    simp only [Pipeline.accept, Option.getD_some]
    split
    · rfl
    · exact hqt.trans hnone
  refine holds_deliver hall (htold ▸ hk) hterminal ?_ ?_ ?_ ?_ ?_
  · rw [hterminal]
    rw [← htold] at hnoted
    exact hnoted
  · rw [htold, ← hqe]
    simp only [Pipeline.accept, Option.getD_some]
    split <;> rfl
  · intro hn
    rw [hterminal] at hn
    have ht : ¬ (b.current all).isTerminal = true := by
      intro ht
      rw [if_pos ht] at hn
      cases hn
    simp only [Pipeline.accept, Option.getD_some, if_neg ht]
    exact ⟨hqo.trans hopen, hqp⟩
  · intro _
    exact hfalse
  · rw [← hact]
    exact ha

/-- Beginning a call keeps the answers. -/
theorem holds_begin {call : Call} {calls : List Call} (hall : Item.Closed all)
    (h : s.Holds all expected) (hact : s.activity = .idle) (hcalls : s.calls = call :: calls) :
    ({ s with calls }.begin call).Holds all expected := by
  obtain ⟨b, hk, hw, hc, ha⟩ := h
  have hj : s.activity ≠ .joining := by simp [hact]
  simp only [outcome, hact, hcalls] at ha
  cases call with
  | pull =>
    exact holds_request hall hk (fun hn _ => hc hn hj) (by simp [hact]) (by simp)
      (by simpa [outcome] using ha)
  | next =>
    simp only [begin]
    split
    · rename_i he
      have htold : b.isTold = true := hk.isTold_eq.trans he
      refine ⟨b, hk, trivial, fun hn _ => hc hn hj, ?_⟩
      rw [← ha]
      simp [answer, outcome, Bookmark.answers, Bookmark.answer, htold]
    · rename_i he
      rw [Bool.not_eq_true] at he
      exact holds_request hall hk (fun hn _ => hc hn hj) (by simp [hact])
        (fun _ => hk.isTold_eq.trans he) (by simpa [outcome] using ha)
  | takeAll =>
    refine ⟨b, hk, trivial, fun hn _ => hc hn hj, ?_⟩
    rw [← ha]
    simp only [begin, outcome, Bookmark.answers, Bookmark.answer]
    split <;> simp
  | close =>
    refine ⟨b, hk, rfl, fun _ hj => absurd rfl hj, ?_⟩
    rw [← ha]
    rfl

/-- Every move of the reader keeps the answers. -/
theorem holds_react (hall : Item.Closed all) (h : s.Holds all expected) (hm : s.Reacts t) :
    t.Holds all expected := by
  cases hm with
  | begins hact hcalls => exact holds_begin hall h hact hcalls
  | receives hact hoffers => exact holds_receive hall h hact hoffers
  | tells hact hexhausted =>
    obtain ⟨b, hk, hw, hc, ha⟩ := h
    have htold : b.isTold = true := hk.isTold_eq.trans hexhausted
    simp only [outcome, hact] at ha
    refine ⟨b, hk, trivial, fun hn _ => hc hn (by simp [hact]), ?_⟩
    rw [← ha]
    simp [answer, outcome, htold]
  | requests hact hexhausted =>
    obtain ⟨b, hk, hw, hc, ha⟩ := h
    simp only [outcome, hact] at ha
    exact holds_request hall hk hc (by simp [hact]) (fun _ => hk.isTold_eq.trans hexhausted)
      (by simpa [outcome] using ha)
  | closes hact =>
    obtain ⟨b, hk, hw, hc, ha⟩ := h
    simp only [outcome, hact, Bookmark.answers, Bookmark.answer] at ha
    rw [← ha]
    refine ⟨(b.answer all .close).2, hk.close, trivial, ?_, ?_⟩
    · intro hn _
      obtain ⟨item, hi⟩ := s.pipeline.afterClose_terminal
      rw [show (s.answer .closed s.pipeline.afterClose).pipeline.terminal = _ from hi] at hn
      cases hn
    · simp [answer, outcome, Bookmark.answer]

end Session

end SchemaScan
