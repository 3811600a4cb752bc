import Mathlib.Data.List.TakeWhile
import SchemaScan.Proofs.Scan.Passage
import SchemaScan.Schema.Piece

/-! # Reading pieces

A stack of goals reads a list of pieces if a scan that stands in front of the pieces comes to stand
behind them, and has found their tokens and nothing else. What goals read depends on one character
more than they take.
-/
namespace SchemaScan

namespace State

/-- The scan first finds the tokens and then is the scan from the other state. -/
def Leads (mode : Mode) (s : State) (found : List Lexeme) (t : State) : Prop :=
  s.trace mode = { t.trace mode with lexemes := found ++ (t.trace mode).lexemes }

namespace Leads

variable {mode : Mode} {s t u : State} {found more : List Lexeme}

theorem refl (s : State) : s.Leads mode [] s := rfl

theorem trans (h : s.Leads mode found t) (h' : t.Leads mode more u) :
    s.Leads mode (found ++ more) u := by
  unfold Leads at h h' ⊢
  rw [h, h', List.append_assoc]

theorem of_next (h : s.step mode = .next found t) : s.Leads mode found t := trace_of_next h

/-- States that make the same step have the same trace. -/
theorem of_step_eq (h : s.step mode = t.step mode) : s.Leads mode [] t := by
  unfold Leads
  cases ht : t.step mode with
  | next found u =>
    rw [trace_of_next ht, trace_of_next (h.trans ht)]
    rfl
  | halt terminal c =>
    rw [trace_of_halt ht, trace_of_halt (h.trans ht)]
    rfl

end Leads

end State

namespace Rune

/-- A run does not go on into a tail whose first character stops it. -/
theorem run_append {p : Char → Bool} (rs : List Rune) {tail : List Rune}
    (ht : (tail.head?.map char).any p = false) :
    run p (rs ++ tail) = run p rs ∧ afterRun p (rs ++ tail) = afterRun p rs ++ tail := by
  induction rs with
  | nil =>
    cases tail with
    | nil => exact ⟨rfl, rfl⟩
    | cons r tail =>
      have hr : p r.char = false := ht
      constructor
      · simp [run, hr]
      · simp [afterRun, hr]
  | cons r rs ih =>
    by_cases hr : p r.char = true
    · constructor
      · simpa [run, hr] using ih.1
      · simpa [afterRun, hr] using ih.2
    · constructor
      · simp [run, hr]
      · simp [afterRun, hr]

theorem run_of_all {p : Char → Bool} {rs tail : List Rune} (h : ∀ r ∈ rs, p r.char = true)
    (ht : (tail.head?.map char).any p = false) :
    run p (rs ++ tail) = rs ∧ afterRun p (rs ++ tail) = tail := by
  obtain ⟨hrun, hafter⟩ := run_append rs ht
  have hall : run p rs = rs := List.takeWhile_eq_self_iff.mpr h
  have hnone : afterRun p rs = [] := List.dropWhile_eq_nil_iff.mpr h
  rw [hrun, hafter, hall, hnone]
  exact ⟨rfl, rfl⟩

theorem forall_mem_scalars {p : Char → Bool} {cs : List Char} (h : ∀ x ∈ cs, p x = true) :
    ∀ r ∈ cs.map scalar, p r.char = true := by
  intro r hr
  obtain ⟨x, hx, rfl⟩ := List.mem_map.mp hr
  exact h x hx

end Rune

namespace Schema

open Piece

/-! ## Pieces -/

namespace Piece

@[simp] theorem allRunes_nil : allRunes [] = [] := rfl
@[simp] theorem allRunes_cons (p : Piece) (ps : List Piece) :
    allRunes (p :: ps) = p.runes ++ allRunes ps := rfl
@[simp] theorem allRunes_append (ps qs : List Piece) :
    allRunes (ps ++ qs) = allRunes ps ++ allRunes qs := List.flatMap_append

theorem lexemes_append (offset line : Nat) (ps qs : List Piece) :
    lexemes offset line (ps ++ qs) = lexemes offset line ps ++
      lexemes (offset + Rune.span (allRunes ps)) (line + Rune.lineFeeds (allRunes ps)) qs := by
  induction ps generalizing offset line with
  | nil => simp [lexemes]
  | cons p ps ih =>
    cases p <;> simp [lexemes, ih, runes, Nat.add_assoc]

/-- The character in front of which a scan stands that has pieces before it, and behind them the
character `next`. -/
def front (ps : List Piece) (next : Option Char) : Option Char :=
  ((allRunes ps).head?.map Rune.char).or next

@[simp] theorem front_nil (next : Option Char) : front [] next = next := rfl
@[simp] theorem front_mark (m : Mark) (ps : List Piece) (next : Option Char) :
    front (mark m :: ps) next = some m.char := rfl
@[simp] theorem front_gap (c : Char) (cs : List Char) (ps : List Piece) (next : Option Char) :
    front (gap (c :: cs) :: ps) next = some c := rfl
@[simp] theorem front_blank (ps : List Piece) (next : Option Char) :
    front (blank :: ps) next = some ' ' := rfl
@[simp] theorem front_lineBreak (ps : List Piece) (next : Option Char) :
    front (lineBreak :: ps) next = some '\n' := rfl
@[simp] theorem front_append (ps qs : List Piece) (next : Option Char) :
    front (ps ++ qs) next = front ps (front qs next) := by
  simp [front, List.head?_append, Option.map_or, Option.or_assoc]

theorem front_tail {ps : List Piece} {tail : List Rune} :
    (allRunes ps ++ tail).head?.map Rune.char = front ps (tail.head?.map Rune.char) := by
  simp [front, List.head?_append, Option.map_or]

end Piece

/-! ## Goals and pieces -/

/-- The goals read the pieces in front of the character `next`, and leave other goals. -/
def Reads (mode : Mode) (goals : List Goal) (ps : List Piece) (left : List Goal)
    (next : Option Char) : Prop :=
  ∀ (c : Cursor) (tail : List Rune), c.rest = allRunes ps ++ tail →
    tail.head?.map Rune.char = next →
    ∃ d, c.Crosses (allRunes ps) d ∧
      ∀ more, State.Leads mode ⟨c, goals ++ more⟩ (lexemes c.offset c.line ps) ⟨d, left ++ more⟩

namespace Reads

variable {mode : Mode} {goals left others : List Goal} {ps qs : List Piece} {next : Option Char}

theorem rest_eq {c d : Cursor} {tail : List Rune} (hc : c.rest = allRunes ps ++ tail)
    (h : c.Crosses (allRunes ps) d) : d.rest = tail :=
  List.append_cancel_left (h.rest.symm.trans hc)

theorem nil : Reads mode goals [] goals next := by
  intro c tail _ _
  exact ⟨c, .refl c, fun _ => .refl _⟩

theorem trans (h : Reads mode goals ps left (front qs next))
    (h' : Reads mode left qs others next) : Reads mode goals (ps ++ qs) others next := by
  intro c tail hc ht
  rw [allRunes_append, List.append_assoc] at hc
  obtain ⟨d, hd, hleads⟩ := h c _ hc (by rw [front_tail, ht])
  obtain ⟨e, he, hleads'⟩ := h' d tail (rest_eq hc hd) ht
  refine ⟨e, ?_, ?_⟩
  · rw [allRunes_append]
    exact hd.trans he
  · intro more
    rw [lexemes_append, ← hd.offset, ← hd.line]
    exact (hleads more).trans (hleads' more)

theorem frame (h : Reads mode goals ps left next) (more : List Goal) :
    Reads mode (goals ++ more) ps (left ++ more) next := by
  intro c tail hc ht
  obtain ⟨d, hd, hleads⟩ := h c tail hc ht
  refine ⟨d, hd, ?_⟩
  intro rest
  rw [List.append_assoc, List.append_assoc]
  exact hleads (more ++ rest)

/-- The first goal reads a piece and leaves other goals in its place. -/
theorem step {g : Goal} {p : Piece} (h : Reads mode [g] [p] others (front qs next))
    (h' : Reads mode (others ++ goals) qs left next) : Reads mode (g :: goals) (p :: qs) left next :=
  (h.frame goals).trans h'

/-- The first goal reads nothing and leaves other goals in its place. -/
theorem pass {g : Goal} (h : Reads mode [g] [] others (front qs next))
    (h' : Reads mode (others ++ goals) qs left next) : Reads mode (g :: goals) qs left next :=
  (h.frame goals).trans h'

/-- Other goals stand in the place of the only one. -/
theorem instead {g : Goal} (h : Reads mode [g] [] others (front qs next))
    (h' : Reads mode others qs left next) : Reads mode [g] qs left next := h.trans h'

/-- The first goal reads several pieces. -/
theorem parts {g : Goal} (h : Reads mode [g] ps [] (front qs next))
    (h' : Reads mode goals qs left next) : Reads mode (g :: goals) (ps ++ qs) left next :=
  (h.frame goals).trans h'

/-- Two readings of the same runes and tokens are one. -/
theorem congr (h : Reads mode goals ps left next) (hr : allRunes qs = allRunes ps)
    (hl : ∀ offset line, lexemes offset line qs = lexemes offset line ps) :
    Reads mode goals qs left next := by
  intro c tail hc ht
  rw [hr] at hc ⊢
  obtain ⟨d, hd, hleads⟩ := h c tail hc ht
  refine ⟨d, hd, ?_⟩
  intro more
  rw [hl]
  exact hleads more

/-- An empty gap makes no difference. -/
theorem gap_nil_iff : Reads mode goals (gap [] :: ps) left next ↔ Reads mode goals ps left next := by
  constructor
  · intro h
    exact h.congr rfl fun _ _ => rfl
  · intro h
    exact h.congr rfl fun _ _ => rfl

/-- Two gaps are as good as one. -/
theorem gap_gap {a b : List Char} (h : Reads mode goals (gap (a ++ b) :: ps) left next) :
    Reads mode goals (gap a :: gap b :: ps) left next := by
  apply h.congr
  · simp [runes]
  · intro offset line
    simp [lexemes, Nat.add_assoc]

/-! ## Single steps -/

theorem peek_eq {c : Cursor} {tail : List Rune} (hc : c.rest = allRunes ps ++ tail)
    (ht : tail.head?.map Rune.char = next) : c.peek = front ps next := by
  rw [Cursor.peek, hc, front_tail, ht]

/-- A step that takes one token. -/
theorem of_token {kind : Kind} {rs : List Rune}
    (h : ∀ (c : Cursor) (tail : List Rune), c.rest = rs ++ tail →
      tail.head?.map Rune.char = next → ∃ d, c.Crosses rs d ∧ ∀ more,
        State.step mode ⟨c, goals ++ more⟩ =
          .next [⟨kind, c.offset, rs, d.line⟩] ⟨d, left ++ more⟩) :
    Reads mode goals [token kind rs] left next := by
  intro c tail hc ht
  simp only [allRunes_cons, allRunes_nil, List.append_nil, runes] at hc ⊢
  obtain ⟨d, hd, hstep⟩ := h c tail hc ht
  refine ⟨d, hd, ?_⟩
  intro more
  rw [lexemes, ← hd.line, lexemes]
  exact .of_next (hstep more)

/-- A step that passes over a gap. -/
theorem of_gap {cs : List Char}
    (h : ∀ (c : Cursor) (tail : List Rune), c.rest = cs.map .scalar ++ tail →
      tail.head?.map Rune.char = next → ∃ d, c.Crosses (cs.map .scalar) d ∧ ∀ more,
        State.step mode ⟨c, goals ++ more⟩ = .next [] ⟨d, left ++ more⟩) :
    Reads mode goals [gap cs] left next := by
  intro c tail hc ht
  simp only [allRunes_cons, allRunes_nil, List.append_nil, runes] at hc ⊢
  obtain ⟨d, hd, hstep⟩ := h c tail hc ht
  exact ⟨d, hd, fun more => .of_next (hstep more)⟩

/-- A step that takes nothing. -/
theorem of_look (h : ∀ c : Cursor, c.peek = next → ∃ d, c.Crosses [] d ∧ ∀ more,
      State.step mode ⟨c, goals ++ more⟩ = .next [] ⟨d, left ++ more⟩) :
    Reads mode goals [] left next := by
  intro c tail hc ht
  obtain ⟨d, hd, hstep⟩ := h c (peek_eq hc ht)
  exact ⟨d, hd, fun more => .of_next (hstep more)⟩

theorem skip_gap {c : Cursor} {p : Char → Bool} {cs : List Char} {tail : List Rune}
    (hc : c.rest = cs.map .scalar ++ tail) (hcs : cs.all p = true)
    (hnext : (tail.head?.map Rune.char).any p = false) :
    c.Crosses (cs.map .scalar) (c.skip p) := by
  have hskip := Cursor.Crosses.skip p c
  rw [hc, (Rune.run_of_all (Rune.forall_mem_scalars (List.all_eq_true.mp hcs)) hnext).1] at hskip
  exact hskip

theorem skip_nothing {c : Cursor} {p : Char → Bool} (h : c.peek.any p = false) :
    c.Crosses [] (c.skip p) :=
  @skip_gap c p [] c.rest rfl rfl h

theorem blanks {cs : List Char} (hcs : cs.all isBlank = true)
    (hnext : next.any isBlank = false) : Reads mode [.blanks] [gap cs] [] next := by
  apply of_gap
  intro c tail hc ht
  rw [← ht] at hnext
  exact ⟨_, skip_gap hc hcs hnext, fun _ => rfl⟩

theorem blank (hnext : next.any isBlank = false) : Reads mode [.blanks] [Piece.blank] [] next :=
  blanks (by decide) hnext

theorem no_blanks (hnext : next.any isBlank = false) : Reads mode [.blanks] [] [] next := by
  apply of_look
  intro c hc
  exact ⟨_, skip_nothing (hc ▸ hnext), fun _ => rfl⟩

theorem space {cs : List Char} (hcs : cs.all isSpace = true)
    (hnext : next.any isSpace = false) : Reads mode [.space] [gap cs] [] next := by
  apply of_gap
  intro c tail hc ht
  rw [← ht] at hnext
  exact ⟨_, skip_gap hc hcs hnext, fun _ => rfl⟩

/-- A construct that other goals replace. -/
theorem expand {k : Construct} {inner : List Goal} (h : k.choose next = .expand inner) :
    Reads mode [.construct k] [] inner next := by
  apply of_look
  intro c hc
  refine ⟨c.look, (Cursor.Crosses.refl c).look, ?_⟩
  intro more
  simp [State.step, Step.construct, hc, h]

/-- A construct that takes its mark. -/
theorem take {k : Construct} {m : Mark} {inner : List Goal}
    (h : k.choose (some m.char) = .take m inner) :
    Reads mode [.construct k] [mark m] inner next := by
  apply of_token
  intro c tail hc ht
  have hpeek : c.peek = some m.char := by
    rw [Cursor.peek, hc]
    rfl
  have hnext := Cursor.Crosses.next c.look
  rw [Cursor.rest_look, hc] at hnext
  refine ⟨c.look.next, hnext.of_look, ?_⟩
  intro more
  have hstep : State.step mode ⟨c, .construct k :: more⟩ = Step.mark m c.look (inner ++ more) := by
    simp only [State.step, Step.construct, Cursor.peek_look, hpeek, h]
  have htaken : c.look.rest.take 1 = [.scalar m.char] := by
    rw [Cursor.rest_look, hc]
    rfl
  rw [Step.mark, Step.token, htaken] at hstep
  exact hstep

end Reads

end Schema

end SchemaScan
