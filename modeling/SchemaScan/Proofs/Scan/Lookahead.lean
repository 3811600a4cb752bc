import SchemaScan.Proofs.Scan.Spans
import SchemaScan.Proofs.Text.Lookahead

/-! # Scans of texts with a common beginning

Two scans that stand in front of the same runes take the same step, if the step settles something in front
of where the runes may differ: a token that ends there, or a place there to go on from. So the tokens that
end there are the same, and no token depends on more than the one rune behind it.
-/
namespace SchemaScan

/-! ## Cursors -/

namespace Cursor

/-- The cursors stand in the same place, in front of the same runes up to the offset `stop`. -/
structure Shares (stop : Nat) (c d : Cursor) : Prop where
  offset : d.offset = c.offset
  line : d.line = c.line
  rest : ∃ front a b, c.rest = front ++ a ∧ d.rest = front ++ b ∧ c.offset + Rune.span front = stop

namespace Shares

variable {stop : Nat} {c d e : Cursor} {taken : List Rune}

theorem symm (h : c.Shares stop d) : d.Shares stop c := by
  obtain ⟨front, a, b, hc, hd, hstop⟩ := h.rest
  exact ⟨h.offset.symm, h.line.symm, front, b, a, hd, hc, by rw [h.offset, hstop]⟩

theorem look (h : c.Shares stop d) : c.look.Shares stop d.look := ⟨h.offset, h.line, h.rest⟩

theorem advance (h : c.Shares stop d) {front a b : List Rune}
    (hstop : c.offset + Rune.span (taken ++ front) = stop) :
    (c.advance taken (front ++ a)).Shares stop (d.advance taken (front ++ b)) := by
  refine ⟨?_, ?_, front, a, b, rfl, rfl, ?_⟩
  · change d.offset + _ = c.offset + _
    rw [h.offset]
  · change d.line + _ = c.line + _
    rw [h.line]
  · change c.offset + Rune.span taken + _ = stop
    rw [Nat.add_assoc, ← Rune.span_append, hstop]

/-- What lies in front of the offset is the same, and so is the rune behind it. -/
theorem crosses (h : c.Shares stop d) (hx : c.Crosses taken e) (hlt : e.offset < stop) :
    ∃ behind a b, behind ≠ [] ∧ e.rest = behind ++ a ∧ d.rest = taken ++ (behind ++ b) ∧
      c.offset + Rune.span (taken ++ behind) = stop := by
  obtain ⟨front, a, b, hc, hd, hstop⟩ := h.rest
  have hoffset := hx.offset
  have hall := hx.rest.symm.trans hc
  rcases List.append_eq_append_iff.mp hall with ⟨behind, rfl, hrest⟩ | ⟨more, rfl, -⟩
  · refine ⟨behind, a, b, ?_, hrest, by rw [hd, List.append_assoc], hstop⟩
    rintro rfl
    rw [List.append_nil] at hstop
    omega
  · rw [Rune.span_append] at hoffset
    omega

theorem exists_cons (h : c.Shares stop d) (hlt : c.offset < stop) :
    ∃ r front a b, c.rest = r :: (front ++ a) ∧ d.rest = r :: (front ++ b) ∧
      c.offset + Rune.span ([r] ++ front) = stop := by
  obtain ⟨behind, a, b, hne, hc, hd, hstop⟩ := h.crosses (.refl c) hlt
  obtain ⟨r, front, rfl⟩ := List.exists_cons_of_ne_nil hne
  exact ⟨r, front, a, b, hc, hd, hstop⟩

theorem peek (h : c.Shares stop d) (hlt : c.offset < stop) : d.peek = c.peek := by
  obtain ⟨r, front, a, b, hc, hd, -⟩ := h.exists_cons hlt
  rw [Cursor.peek, Cursor.peek, hc, hd]
  rfl

theorem take (h : c.Shares stop d) (hlt : c.offset < stop) : d.rest.take 1 = c.rest.take 1 := by
  obtain ⟨r, front, a, b, hc, hd, -⟩ := h.exists_cons hlt
  rw [hc, hd]
  rfl

theorem next (h : c.Shares stop d) (hlt : c.offset < stop) : c.next.Shares stop d.next := by
  obtain ⟨r, front, a, b, hc, hd, hstop⟩ := h.exists_cons hlt
  rw [Cursor.next, Cursor.next, hc, hd]
  exact h.advance hstop

theorem skip {p : Char → Bool} (h : c.Shares stop d) (hlt : (c.skip p).offset < stop) :
    Rune.run p d.rest = Rune.run p c.rest ∧ (c.skip p).Shares stop (d.skip p) := by
  obtain ⟨behind, a, b, hne, hc, hd, hstop⟩ := h.crosses (.skip p c) hlt
  obtain ⟨hrun, hafter⟩ := Rune.run_behind hne hc b
  rw [← hd] at hrun hafter
  refine ⟨hrun, ?_⟩
  rw [Cursor.skip, Cursor.skip, hrun, hafter, show Rune.afterRun p c.rest = behind ++ a from hc]
  exact (h.advance hstop).look

/-- What is read in front of the offset is the same. -/
theorem reading {α : Type} {read : List Rune → Reading α} (hlocal : Reading.IsLocal read)
    (hsplit : ∀ rs, (read rs).taken ++ (read rs).rest = rs) (h : c.Shares stop d)
    (hlt : c.offset + Rune.span (read c.rest).taken < stop) :
    ∃ rest, read d.rest = { read c.rest with rest } ∧
      (c.advance (read c.rest).taken (read c.rest).rest).look.Shares stop
        (d.advance (read c.rest).taken rest).look := by
  obtain ⟨behind, a, b, hne, hc, hd, hstop⟩ := h.crosses (.advance (hsplit c.rest)) hlt
  refine ⟨behind ++ b, ?_, ?_⟩
  · rw [hd, hlocal hne hc]
  · rw [show (read c.rest).rest = behind ++ a from hc]
    exact (h.advance hstop).look

end Shares

end Cursor

structure State.Shares (stop : Nat) (s t : State) : Prop where
  cursor : s.cursor.Shares stop t.cursor
  goals : t.goals = s.goals

theorem State.Shares.symm {stop : Nat} {s t : State} (h : s.Shares stop t) : t.Shares stop s :=
  ⟨h.cursor.symm, h.goals.symm⟩

/-! ## Steps -/

namespace Step

/-- The first token that the step finds ends in front of the offset; if it finds none, the scan goes on in
front of the offset. -/
def SettlesBefore (stop : Nat) : Step → Prop
  | next [] s => s.cursor.offset < stop
  | next (l :: _) _ => l.stop < stop
  | halt _ _ => False

/-- The steps find the same and go on alike, if the first one settles something in front of the offset. -/
def Shares (stop : Nat) (step other : Step) : Prop :=
  step.SettlesBefore stop →
    ∃ found s t, step = next found s ∧ other = next found t ∧ s.Shares stop t

variable {stop : Nat} {mode : Mode} {c d after after' : Cursor} {goals : List Goal} {step other : Step}

theorem From.offset_lt (h : step.From c) (hs : step.SettlesBefore stop) : c.offset < stop := by
  match step, h, hs with
  | next [] s, h, hs =>
    obtain ⟨taken, hx⟩ := Passage.crosses h
    exact Nat.lt_of_le_of_lt hx.offset_le hs
  | next (l :: found) s, h, hs =>
    have hstart := ((Passage.ordered h).1 l List.mem_cons_self).1
    exact Nat.lt_of_le_of_lt (Nat.le_trans hstart (Nat.le_add_right ..)) hs

theorem Shares.of_lt (offset : Nat) (hlt : step.SettlesBefore stop → offset < stop)
    (h : offset < stop → step.Shares stop other) : step.Shares stop other :=
  fun hs => h (hlt hs) hs

theorem shares_gap (h : c.offset < stop → c.Shares stop d) :
    (next [] ⟨c, goals⟩).Shares stop (next [] ⟨d, goals⟩) :=
  fun hs => ⟨_, _, ⟨d, goals⟩, rfl, rfl, h hs, rfl⟩

theorem shares_fail {f : Fault} : (fail f c after).Shares stop other := False.elim

theorem shares_token (kind : Kind) (taken : List Rune) (ho : d.offset = c.offset)
    (h : after.Shares stop after') :
    (token kind taken c after goals).Shares stop (token kind taken d after' goals) :=
  fun _ => ⟨_, _, ⟨after', goals⟩, rfl, by rw [token, ho, h.line], h, rfl⟩

theorem shares_mark {m : Mark} (h : c.Shares stop d) (hlt : c.offset < stop) :
    (mark m c goals).Shares stop (mark m d goals) := by
  rw [mark, mark, h.take hlt]
  exact shares_token _ _ h.offset (h.next hlt)

theorem shares_name (role : NameRole) (h : c.Shares stop d) :
    (name role c goals).Shares stop (name role d goals) := by
  refine Shares.of_lt (c.offset + Rune.span (NameSegment.read c.rest).taken) ?_ fun hlt => ?_
  · simp only [name]
    repeat' split
    all_goals first | exact id | exact False.elim
  · obtain ⟨rest, hread, hafter⟩ :=
      h.reading NameSegment.isLocal_read NameSegment.read_taken_append_rest hlt
    simp only [name, hread, hafter.peek hlt]
    split
    · exact shares_fail
    · split
      · refine fun _ =>
          ⟨_, _, ⟨(d.advance _ rest).look.next, .name role :: goals⟩, rfl, ?_, hafter.next hlt, rfl⟩
        rw [h.offset, hafter.line, hafter.offset, hafter.take hlt, (hafter.next hlt).line]
      · split
        · exact shares_fail
        · split
          · exact shares_token _ _ h.offset hafter
          · exact shares_gap fun _ => hafter

theorem shares_string (role : StringRole) (h : c.Shares stop d) :
    (string role c goals).Shares stop (string role d goals) := by
  refine Shares.of_lt (c.offset + Rune.span (StringLiteral.read c.rest).taken) ?_ fun hlt => ?_
  · simp only [string]
    split
    · exact id
    · exact False.elim
  · obtain ⟨rest, hread, hafter⟩ :=
      h.reading StringLiteral.isLocal_read StringLiteral.read_taken_append_rest hlt
    simp only [string, hread]
    split
    · exact shares_token _ _ h.offset hafter
    · exact shares_fail

theorem shares_number (h : c.Shares stop d) : (number c goals).Shares stop (number d goals) := by
  refine Shares.of_lt (c.offset + Rune.span (NumberLiteral.read c.rest).taken) ?_ fun hlt => ?_
  · simp only [number]
    split
    · exact id
    · exact False.elim
  · obtain ⟨rest, hread, hafter⟩ :=
      h.reading NumberLiteral.isLocal_read NumberLiteral.read_taken_append_rest hlt
    simp only [number, hread]
    split
    · exact shares_token _ _ h.offset hafter
    · exact shares_fail

theorem shares_comment (h : c.Shares stop d) : (comment mode c goals).Shares stop (comment mode d goals) := by
  refine Shares.of_lt (c.skip (!isLineEnd ·)).offset ?_ fun hlt => ?_
  · simp only [comment]
    split <;> exact id
  · obtain ⟨hrun, hskip⟩ := h.skip hlt
    simp only [comment, hrun]
    split
    · exact shares_token _ _ h.offset hskip
    · exact shares_gap fun _ => hskip

theorem shares_leave {s : Series} (h : c.Shares stop d) (hlt : c.offset < stop) :
    (leave s c goals).Shares stop (leave s d goals) := by
  simp only [leave]
  split
  · exact shares_mark h hlt
  · exact shares_gap fun _ => h

/-- Where an element may start, a step goes on from behind the layout. -/
theorem from_elements (s : Series) (fixed : Option Char) :
    (elements mode s fixed c goals).From (c.skip isSpace) := by
  have hfrom := State.step_from mode ⟨c.skip isSpace, .elements s fixed :: goals⟩
  simp only [State.step, elements, c.skip_skip] at hfrom ⊢
  exact hfrom

theorem shares_elements {s : Series} {fixed : Option Char} (h : c.Shares stop d) :
    (elements mode s fixed c goals).Shares stop (elements mode s fixed d goals) := by
  refine Shares.of_lt (c.skip isSpace).offset (from_elements s fixed).offset_lt fun hlt => ?_
  obtain ⟨-, hskip⟩ := h.skip hlt
  simp only [elements, hskip.peek hlt]
  split
  · exact shares_leave hskip hlt
  · split
    · exact shares_comment hskip
    · exact shares_gap fun _ => hskip

theorem shares_separator {s : Series} {fixed : Option Char} (h : c.Shares stop d) :
    (separator mode s fixed c goals).Shares stop (separator mode s fixed d goals) := by
  refine Shares.of_lt c.offset (State.step_from mode ⟨c, .separator s fixed :: goals⟩).offset_lt fun hlt => ?_
  have hl := h.look
  have hnext := hl.next hlt
  simp only [separator, hl.peek hlt]
  split
  · split
    · exact shares_gap fun _ => hl
    · exact shares_fail
  · split
    · exact shares_gap fun _ => hnext
    · split
      · -- whether more elements follow is decided behind the blanks
        refine Shares.of_lt (c.look.skip isBlank).offset ?_ fun hblank => ?_
        · repeat' split
          all_goals exact id
        · obtain ⟨-, hskip⟩ := hl.skip hblank
          rw [hskip.peek hblank]
          split
          · exact shares_gap fun _ => hskip
          · split
            · exact shares_gap fun _ => hskip
            · exact shares_gap fun _ => hskip
      · split
        · split
          · exact shares_fail
          · split
            · exact shares_comment hl
            · exact shares_gap fun hline => (hl.skip hline).2
        · split
          · exact shares_leave hl hlt
          · split
            · split
              · exact shares_fail
              · exact shares_gap fun _ => hnext
            · exact shares_fail

theorem shares_construct {k : Construct} (h : c.Shares stop d) :
    (construct k c goals).Shares stop (construct k d goals) := by
  refine Shares.of_lt c.offset (State.step_from {} ⟨c, .construct k :: goals⟩).offset_lt fun hlt => ?_
  have hl := h.look
  simp only [construct, hl.peek hlt]
  split
  · exact shares_gap fun _ => hl
  · exact shares_mark hl hlt
  · exact shares_fail

theorem shares_topLevel (h : c.Shares stop d) : (topLevel mode c).Shares stop (topLevel mode d) := by
  refine Shares.of_lt c.offset (State.step_from mode ⟨c, []⟩).offset_lt fun hlt => ?_
  have hl := h.look
  simp only [topLevel, hl.peek hlt]
  split
  · exact False.elim
  · split
    · exact shares_gap fun hspace => (hl.skip hspace).2
    · split
      · exact shares_comment hl
      · split
        · exact shares_string _ hl
        · split
          · exact shares_name _ hl
          · exact shares_fail

/-- The same steps settle the same. -/
theorem Shares.settlesBefore (h : step.Shares stop other) (hs : step.SettlesBefore stop) :
    other.SettlesBefore stop := by
  obtain ⟨found, s, t, rfl, rfl, hshares⟩ := h hs
  cases found with
  | nil =>
    change t.cursor.offset < stop
    rw [hshares.cursor.offset]
    exact hs
  | cons l found => exact hs

end Step

/-! ## Runs -/

namespace State

variable {stop : Nat} {mode : Mode} {s t : State}

theorem step_shares (mode : Mode) (h : s.Shares stop t) : (s.step mode).Shares stop (t.step mode) := by
  obtain ⟨c, goals⟩ := s
  obtain ⟨d, goals'⟩ := t
  obtain ⟨hcursor, hgoals⟩ := h
  obtain rfl : goals' = goals := hgoals
  cases goals' with
  | nil => exact Step.shares_topLevel hcursor
  | cons g goals =>
    cases g with
    | blanks | space => exact Step.shares_gap fun hlt => (hcursor.skip hlt).2
    | name role => exact Step.shares_name role hcursor
    | string role => exact Step.shares_string role hcursor
    | number => exact Step.shares_number hcursor
    | elements s fixed => exact Step.shares_elements hcursor
    | separator s fixed => exact Step.shares_separator hcursor
    | construct k => exact Step.shares_construct hcursor

/-- No token ends in front of the offset from a step on that settles nothing there. -/
theorem le_stop_of_step (h : ¬(s.step mode).SettlesBefore stop) :
    ∀ l ∈ (s.trace mode).lexemes, stop ≤ l.stop := by
  cases hs : s.step mode with
  | halt terminal c =>
    rw [trace_of_halt hs]
    exact List.forall_mem_nil _
  | next found t =>
    have hfound : Passage s.cursor found t.cursor := by
      have hfrom := s.step_from mode
      rwa [hs] at hfrom
    obtain ⟨c, d, hrest, -⟩ := t.trace_passage mode
    have hbehind : ∀ l ∈ (t.trace mode).lexemes, t.cursor.offset ≤ l.stop := fun l hl =>
      Nat.le_trans (hrest.ordered.1 l hl).1 (Nat.le_add_right ..)
    rw [hs] at h
    rw [trace_of_next hs]
    cases found with
    | nil => exact fun l hl => Nat.le_trans (Nat.not_lt.mp h) (hbehind l hl)
    | cons k found =>
      have hk : stop ≤ k.stop := Nat.not_lt.mp h
      obtain ⟨hrange, hpairs⟩ := hfound.ordered
      intro l hl
      rcases List.mem_cons.mp hl with rfl | hl
      · exact hk
      rcases List.mem_append.mp hl with hl | hl
      · have hkl := (List.pairwise_cons.mp hpairs).1 l hl
        exact Nat.le_trans hk (Nat.le_trans hkl (Nat.le_add_right ..))
      · exact Nat.le_trans hk (Nat.le_trans (hrange k List.mem_cons_self).2 (hbehind l hl))

/-- Scans that share what lies in front of the offset find the same tokens that end there. -/
theorem filter_trace_of_shares (mode : Mode) (h : s.Shares stop t) :
    (s.trace mode).lexemes.filter (·.stop < stop) = (t.trace mode).lexemes.filter (·.stop < stop) := by
  have hsettles : (t.step mode).SettlesBefore stop → (s.step mode).SettlesBefore stop :=
    (step_shares mode h.symm).settlesBefore
  have hnone {s : State} (hs : ¬(s.step mode).SettlesBefore stop) :
      (s.trace mode).lexemes.filter (·.stop < stop) = [] :=
    List.filter_eq_nil_iff.mpr fun l hl => by simpa using le_stop_of_step hs l hl
  -- along the first scan; where its step settles nothing in front of the offset, that of the other does not
  -- either, and neither scan finds any more tokens that end there
  induction s using State.trace.induct mode generalizing t with
  | case1 s terminal c hs =>
    have hhalt : ¬(s.step mode).SettlesBefore stop := by
      rw [hs]
      exact id
    rw [hnone hhalt, hnone (mt hsettles hhalt)]
  | case2 s found s' hs ih =>
    by_cases hset : (s.step mode).SettlesBefore stop
    · obtain ⟨found', s'', t', hs', ht, hshares⟩ := step_shares mode h hset
      obtain ⟨rfl, rfl⟩ : found = found' ∧ s' = s'' := by simpa using hs.symm.trans hs'
      rw [trace_of_next hs, trace_of_next ht, List.filter_append, List.filter_append,
        ih hshares (step_shares mode hshares.symm).settlesBefore]
    · rw [hnone hset, hnone (mt hsettles hset)]

/-- The scans of sources that begin with the same runes start in front of them. -/
theorem initial_shares {source other : List UInt8} {front a b : List Rune} (hne : front ≠ [])
    (hs : Rune.read source = front ++ a) (ho : Rune.read other = front ++ b) :
    (initial source).Shares (Rune.span front) (initial other) := by
  have hstart : (Cursor.start (Rune.read source)).Shares (Rune.span front)
      (Cursor.start (Rune.read other)) := ⟨rfl, rfl, front, a, b, hs, ho, Nat.zero_add _⟩
  have hpos : (Cursor.start (Rune.read source)).offset < Rune.span front := Rune.span_pos hne
  simp only [initial, hstart.peek hpos]
  split
  · exact ⟨hstart.next hpos, rfl⟩
  · exact ⟨hstart, rfl⟩

end State

/-! ## Items -/

/-- The tokens that end four bytes or more in front of where two sources may differ are the same. -/
theorem Trace.filter_lexemes_of_take {source other : List UInt8} {n : Nat}
    (h : source.take n = other.take n) (mode : Mode) :
    (ofSource mode source).lexemes.filter (·.stop + 4 ≤ n) =
      (ofSource mode other).lexemes.filter (·.stop + 4 ≤ n) := by
  rcases Nat.lt_or_ge source.length n with hlt | hn
  · have hsame : source = other := by
      have hlen := congrArg List.length h
      rw [List.length_take, List.length_take] at hlen
      rwa [List.take_of_length_le (by omega), List.take_of_length_le (by omega)] at h
    rw [hsame]
  obtain ⟨front, a, b, hs, ho, hlast⟩ := Rune.exists_common hn h
  have hfilter (ls : List Lexeme) : ls.filter (·.stop + 4 ≤ n) =
      (ls.filter (·.stop < Rune.span front)).filter (·.stop + 4 ≤ n) := by
    rw [List.filter_filter]
    refine List.filter_congr fun l _ => ?_
    simp only [Bool.eq_self_and, decide_eq_true_eq]
    omega
  by_cases hne : front = []
  · -- too little is shared for a token to end in front of it
    have hnone (ls : List Lexeme) : ls.filter (·.stop + 4 ≤ n) = [] := by
      refine List.filter_eq_nil_iff.mpr fun l _ => ?_
      rw [hne, Rune.span_nil] at hlast
      simp only [decide_eq_true_eq]
      omega
    rw [hnone, hnone]
  · rw [hfilter, hfilter (ofSource mode other).lexemes, ofSource, ofSource,
      State.filter_trace_of_shares mode (State.initial_shares hne hs ho)]

/-- The items that do not end their stream and lie four bytes or more in front of the offset `n`, with their
spans. -/
def Item.settled (n : Nat) (items : List Item) (spans : List (Nat × Nat)) : List (Item × Nat × Nat) :=
  (items.zip spans).filter fun p => !p.1.isTerminal && p.2.2 + 4 ≤ n

theorem Trace.settled_items (mode : Mode) (source : List UInt8) (base n : Nat) :
    Item.settled n ((ofSource mode source).items base) (ofSource mode source).spans =
      ((ofSource mode source).lexemes.filter (·.stop + 4 ≤ n)).map
        fun l => (l.item base, l.start, l.stop) := by
  obtain ⟨c, d, hpassage, -⟩ := (State.initial source).trace_passage mode
  have hterminal : ((ofSource mode source).terminal.item base).isTerminal = true := by
    cases (ofSource mode source).terminal <;> rfl
  rw [Item.settled, items, spans, List.zip_append (by simp), List.zip_map', List.filter_append,
    List.filter_map]
  simp only [List.zip_cons_cons, List.zip_nil_right, List.filter_cons, hterminal, Bool.not_true,
    Bool.false_and, Bool.false_eq_true, ↓reduceIte, List.filter_nil, List.append_nil]
  refine congrArg _ (List.filter_congr fun l hl => ?_)
  have hkind : (l.item base).isTerminal = false := hpassage.nonterminal l hl
  simp only [Function.comp_apply, hkind, Bool.not_false, Bool.true_and]

/-- Two sources with the same first `n` bytes have the same items up to four bytes in front of the offset
`n`: an item depends on the one rune behind it, if there is one, and on nothing further on. -/
theorem Document.scan_lookahead {doc other : Document} {source bytes : List UInt8} {n : Nat}
    (hs : source.length = doc.size) (ho : bytes.length = other.size) (hbase : other.base = doc.base)
    (h : source.take n = bytes.take n) (mode : Mode) :
    let spans := (Trace.ofSource mode source).spans
    let spans' := (Trace.ofSource mode bytes).spans
    ∃ items after items' after', doc.scan source mode = .ok (items, after) ∧
      other.scan bytes mode = .ok (items', after') ∧
      List.Forall₂ (fun item span => item.Spans doc.base source span.1 span.2) items spans ∧
      List.Forall₂ (fun item span => item.Spans other.base bytes span.1 span.2) items' spans' ∧
      Item.settled n items spans = Item.settled n items' spans' := by
  refine ⟨_, _, _, _, doc.scan_of_size hs mode, other.scan_of_size ho mode,
    (Trace.items_spans mode source doc.base).1, (Trace.items_spans mode bytes other.base).1, ?_⟩
  rw [Trace.settled_items, Trace.settled_items, Trace.filter_lexemes_of_take h, hbase]

/-- The sources differ behind the beginning of a name. -/
theorem Document.scan_lookahead_name :
    let doc : Document := { name := "a", base := 1, size := 11 }
    let other : Document := { name := "b", base := 1, size := 12 }
    let source : List UInt8 := [0x73, 0x63, 0x61, 0x6C, 0x61, 0x72, 0x20, 0x41, 0x42, 0x43, 0x44]
    let bytes : List UInt8 := [0x73, 0x63, 0x61, 0x6C, 0x61, 0x72, 0x20, 0x41, 0x42, 0x43, 0x40, 0x40]
    let spans := (Trace.ofSource {} source).spans
    let spans' := (Trace.ofSource {} bytes).spans
    source.length = doc.size ∧ bytes.length = other.size ∧ other.base = doc.base ∧
      source.take 10 = bytes.take 10 ∧
      ∃ items after items' after', doc.scan source {} = .ok (items, after) ∧
        other.scan bytes {} = .ok (items', after') ∧
        List.Forall₂ (fun item span => item.Spans doc.base source span.1 span.2) items spans ∧
        List.Forall₂ (fun item span => item.Spans other.base bytes span.1 span.2) items' spans' ∧
        Item.settled 10 items spans = Item.settled 10 items' spans' := by
  intro doc other source bytes spans spans'
  have hbase : other.base = doc.base := rfl
  have htake : source.take 10 = bytes.take 10 := rfl
  exact ⟨rfl, rfl, hbase, htake, Document.scan_lookahead rfl rfl hbase htake {}⟩

end SchemaScan
