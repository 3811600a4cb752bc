import SchemaScan.Proofs.Scan.Passage
import SchemaScan.Proofs.Scan.Turns
import SchemaScan.Proofs.Text.Continuations

/-! # A scan with more behind it

A scan does not see where in a document it stands: further on it does the same, and finds the same tokens
further on. Nor does it see what follows a source that ends with a line feed, until it has taken that line
feed. A scan that does so between definitions is at the top level, and any other has still something to
find, so that it fails if nothing follows.
-/
namespace SchemaScan

open Rune (Sealed)

/-! ## Cursors -/

/-- The second cursor stands in front of the same runes with a tail behind them, so many bytes and lines
further on. -/
structure Cursor.Continues (bytes lines : Nat) (tail : List Rune) (c d : Cursor) : Prop where
  offset : d.offset = c.offset + bytes
  line : d.line = c.line + lines
  rest : d.rest = c.rest ++ tail

variable {bytes lines : Nat} {tail : List Rune} {c d after after' : Cursor} {p : Char → Bool}

namespace Cursor.Continues

theorem look (h : c.Continues bytes lines tail d) : c.look.Continues bytes lines tail d.look :=
  ⟨h.offset, h.line, h.rest⟩

theorem advance (h : c.Continues bytes lines tail d) (taken rest : List Rune) :
    (c.advance taken rest).Continues bytes lines tail (d.advance taken (rest ++ tail)) := by
  refine ⟨?_, ?_, rfl⟩
  · change d.offset + _ = c.offset + _ + bytes
    rw [h.offset, Nat.add_right_comm]
  · change d.line + _ = c.line + _ + lines
    rw [h.line, Nat.add_right_comm]

theorem peek (h : c.Continues bytes lines tail d) (hs : Sealed c.rest tail) : d.peek = c.peek := by
  rw [Cursor.peek, Cursor.peek, h.rest]
  cases hc : c.rest with
  | nil =>
    rw [hc] at hs
    rw [hs.tail_eq_nil, List.append_nil]
  | cons r rest => rfl

theorem take_rest (h : c.Continues bytes lines tail d) {r : Char} (hp : c.peek = some r) :
    d.rest.take 1 = c.rest.take 1 ∧ d.rest.drop 1 = c.rest.drop 1 ++ tail := by
  rw [h.rest]
  cases hc : c.rest with
  | nil =>
    rw [Cursor.peek, hc] at hp
    cases hp
  | cons r rest => exact ⟨rfl, rfl⟩

theorem next (h : c.Continues bytes lines tail d) {r : Char} (hp : c.peek = some r) :
    c.next.Continues bytes lines tail d.next := by
  obtain ⟨htake, hdrop⟩ := h.take_rest hp
  rw [Cursor.next, Cursor.next, htake, hdrop]
  exact h.advance ..

theorem skip (h : c.Continues bytes lines tail d) (hne : tail = [] ∨ (c.skip p).rest ≠ []) :
    (c.skip p).Continues bytes lines tail (d.skip p) := by
  obtain ⟨hrun, hafter⟩ := Rune.run_append_of_ne hne
  rw [Cursor.skip, Cursor.skip, h.rest, hrun, hafter]
  exact (h.advance ..).look

end Cursor.Continues

theorem Rune.Sealed.next (hs : Sealed c.rest tail) (hne : tail = [] ∨ c.next.rest ≠ []) :
    Sealed c.next.rest tail := hs.suffix (List.drop_suffix 1 c.rest) hne

theorem Rune.Sealed.next_of_ne (hs : Sealed c.rest tail) {r : Char} (hp : c.peek = some r)
    (hr : r ≠ '\n') : Sealed c.next.rest tail := by
  refine hs.next ?_
  obtain ⟨offset, line, seen, _ | ⟨rune, rest⟩⟩ := c
  · cases hp
  · obtain rfl : rune.char = r := by simpa [Cursor.peek] using hp
    exact Rune.Sealed.rest_ne_nil (p := (· ≠ '\n')) hs (by simpa using hr) (by decide)

/-! ## The end of the source -/

/-- A scan that has these goals at the end of its source fails. -/
def Goal.Starve (goals : List Goal) : Prop :=
  ∀ (mode : Mode) (c : Cursor), c.rest = [] →
    ∃ f start line, (State.trace mode ⟨c, goals⟩).terminal = .fault f start line

namespace Goal

theorem starve_of_fail {goals : List Goal}
    (h : ∀ (mode : Mode) (c : Cursor), c.rest = [] →
      ∃ f d after, State.step mode ⟨c, goals⟩ = Step.fail f d after) : Starve goals := by
  intro mode c hc
  obtain ⟨f, d, after, hstep⟩ := h mode c hc
  exact ⟨f, d.offset, after.line, by rw [State.trace_of_halt hstep]⟩

theorem Starve.of_next {goals inner : List Goal} (hinner : Starve inner)
    (h : ∀ (mode : Mode) (c : Cursor), c.rest = [] →
      ∃ d : Cursor, d.rest = [] ∧ State.step mode ⟨c, goals⟩ = .next [] ⟨d, inner⟩) : Starve goals := by
  intro mode c hc
  obtain ⟨d, hd, hstep⟩ := h mode c hc
  obtain ⟨f, start, line, hf⟩ := hinner mode d hd
  exact ⟨f, start, line, by rw [State.trace_of_next hstep, hf]⟩

theorem starve_name (role : NameRole) (goals : List Goal) : Starve (.name role :: goals) := by
  refine starve_of_fail fun mode c hc =>
    ⟨role.fault (Rune.text []), c, (c.advance [] []).look, ?_⟩
  simp only [State.step, Step.name, hc]
  exact if_pos rfl

/-- An element starts with a name behind a description that may be missing, or fails at once. -/
theorem starve_element (s : Series) (goals : List Goal) : Starve (element s ++ goals) := by
  have hdescribed (use : NameUse) (others : List Goal) :
      Starve (.construct .description :: .name (.plain use) :: others) := by
    refine (starve_name (.plain use) others).of_next fun mode c hc => ⟨c.look, hc, ?_⟩
    simp [State.step, Step.construct, Construct.choose, Cursor.peek, hc]
  have hconstruct (k : Construct) (others : List Goal) (f : Fault) (hk : k.choose none = .fail f) :
      Starve (.construct k :: others) := by
    refine starve_of_fail fun mode c hc => ⟨f, c.look, c.look, ?_⟩
    have hpeek : c.look.peek = none := by simp [Cursor.peek, hc]
    simp only [State.step, Step.construct, hpeek, hk]
  cases s with
  | importPaths =>
    refine starve_of_fail fun mode c hc =>
      ⟨.malformedString .importListPath (Rune.text []), c, (c.advance [] []).look, ?_⟩
    simp only [element, List.cons_append, State.step, Step.string, hc]
    exact if_neg (by decide)
  | members | arguments => exact hdescribed _ _
  | directives site | values => exact hconstruct _ _ _ rfl
  | _ => exact starve_name _ _

theorem starve_elements (s : Series) (fixed : Option Char) (goals : List Goal) :
    Starve (.elements s fixed :: goals) := by
  refine (starve_element s (.separator s fixed :: goals)).of_next fun mode c hc => ?_
  have hrest : (c.skip isSpace).rest = [] := by simp [hc, Rune.afterRun]
  refine ⟨c.skip isSpace, hrest, ?_⟩
  have hpeek : (c.skip isSpace).peek = none := by rw [Cursor.peek, hrest]; rfl
  simp [State.step, Step.elements, hpeek]

end Goal

/-! ## Names behind descriptions -/

namespace Goal

def isName : Goal → Bool
  | name _ => true
  | _ => false

/-- A description, and the space behind it, have a name below them. -/
def DescribesNames : List Goal → Bool
  | [] => true
  | g :: goals =>
    (g != .space && g != .construct .description || goals.head?.any isName) && DescribesNames goals

theorem describesNames_append {inner goals : List Goal} (hi : DescribesNames inner = true)
    (hg : DescribesNames goals = true) : DescribesNames (inner ++ goals) = true := by
  induction inner with
  | nil => exact hg
  | cons g inner ih =>
    simp only [List.cons_append, DescribesNames, Bool.and_eq_true] at hi ⊢
    refine ⟨?_, ih hi.2⟩
    cases inner with
    | nil =>
      have hplain : (g != .space && g != .construct .description) = true := by simpa using hi.1
      rw [hplain, Bool.true_or]
    | cons inner rest => exact hi.1

theorem describesNames_element (s : Series) : DescribesNames (element s) = true := by
  cases s <;> rfl

theorem describesNames_definitionRest (k : Keyword) : DescribesNames (definitionRest k) = true := by
  cases k <;> rfl

theorem describesNames_following (role : NameRole) (kind : Kind) :
    DescribesNames (role.following kind) = true := by
  unfold NameRole.following
  split
  · exact describesNames_definitionRest _
  · rfl

theorem describesNames_of_expand {k : Construct} {next : Option Char} {inner : List Goal}
    (h : k.choose next = .expand inner) : k = .description ∨ DescribesNames inner = true := by
  cases k with
  | description => exact .inl rfl
  | _ =>
    right
    simp only [Construct.choose] at h
    repeat' split at h
    all_goals cases h <;> rfl

theorem describesNames_of_take {k : Construct} {next : Option Char} {m : Mark} {inner : List Goal}
    (h : k.choose next = .take m inner) : DescribesNames inner = true := by
  cases k <;> simp only [Construct.choose] at h <;> (repeat' split at h) <;> cases h <;> rfl

/-- What takes the place of a goal describes names. Only a description leaves its name to the goals
below. -/
theorem Becomes.describesNames {g : Goal} {inner : List Goal} (h : g.Becomes inner) :
    g = .construct .description ∨ DescribesNames inner = true := by
  cases h with
  | done | qualified | again | behind | separated | fixes => exact .inr rfl
  | following role kind => exact .inr (describesNames_following role kind)
  | element s fixed => exact .inr (describesNames_append (describesNames_element s) rfl)
  | expand hk => exact (describesNames_of_expand hk).imp_left (congrArg _)
  | take hk => exact .inr (describesNames_of_take hk)

theorem Turns.describesNames {goals after : List Goal} (h : Turns goals after)
    (hg : DescribesNames goals = true) : DescribesNames after = true := by
  cases h with
  | top => rfl
  | definition hname => exact hname.describesNames.resolve_left (by simp)
  | @inside g inner goals hbecomes =>
    simp only [DescribesNames, Bool.and_eq_true] at hg
    rcases hbecomes.describesNames with rfl | hinner
    · cases hbecomes with
      | done => exact hg.2
      | expand hk =>
        simp only [Construct.choose] at hk
        split at hk
        · cases hk
          simpa [DescribesNames] using hg
        · cases hk
          exact hg.2
      | take hk =>
        simp only [Construct.choose] at hk
        split at hk <;> cases hk
    · exact describesNames_append hinner hg.2

/-- The space behind a description has to be followed by a name. -/
theorem starve_of_space {goals : List Goal} (h : DescribesNames (.space :: goals) = true) :
    Starve goals := by
  cases goals with
  | nil => simp [DescribesNames] at h
  | cons g goals =>
    cases g with
    | name role => exact starve_name role goals
    | _ => simp [DescribesNames, isName] at h

end Goal

/-! ## Steps -/

/-- The token so many bytes and lines further on. -/
def Lexeme.moved (bytes lines : Nat) (l : Lexeme) : Lexeme :=
  { l with start := l.start + bytes, line := l.line + lines }

def Terminal.moved (bytes lines : Nat) : Terminal → Terminal
  | eof start line => .eof (start + bytes) (line + lines)
  | fault f start line => .fault f (start + bytes) (line + lines)

structure State.Continues (bytes lines : Nat) (tail : List Rune) (s t : State) : Prop where
  cursor : s.cursor.Continues bytes lines tail t.cursor
  isSealed : Sealed s.cursor.rest tail
  goals : t.goals = s.goals

/-- All of the source has been taken, and more is needed. -/
def State.IsSpent (s : State) : Prop := s.cursor.rest = [] ∧ Goal.Starve s.goals

namespace Step

/-- The second step does the same further on, unless the first one takes what more is needed behind. -/
def Continues (bytes lines : Nat) (tail : List Rune) : Step → Step → Prop
  | next found s, step =>
    (∃ t, step = next (found.map (·.moved bytes lines)) t ∧ s.Continues bytes lines tail t) ∨
      (tail ≠ [] ∧ s.IsSpent)
  | halt terminal _, step => tail = [] → ∃ c, step = halt (terminal.moved bytes lines) c

variable {mode : Mode} {goals : List Goal}

theorem continues_gap (h : c.Continues bytes lines tail d) (hs : Sealed c.rest tail) :
    (next [] ⟨c, goals⟩).Continues bytes lines tail (next [] ⟨d, goals⟩) :=
  .inl ⟨_, rfl, h, hs, rfl⟩

/-- Where more is needed, the end may be reached. -/
theorem continues_starving (hgoals : Goal.Starve goals)
    (h : tail = [] ∨ c.rest ≠ [] → c.Continues bytes lines tail d ∧ Sealed c.rest tail) :
    (next [] ⟨c, goals⟩).Continues bytes lines tail (next [] ⟨d, goals⟩) := by
  by_cases hne : tail = [] ∨ c.rest ≠ []
  · obtain ⟨hcursor, hs⟩ := h hne
    exact continues_gap hcursor hs
  · rw [not_or, not_not] at hne
    exact .inr ⟨hne.1, hne.2, hgoals⟩

theorem continues_token (kind : Kind) (taken : List Rune) (hc : d.offset = c.offset + bytes)
    (h : after.Continues bytes lines tail after') (hs : Sealed after.rest tail) :
    (token kind taken c after goals).Continues bytes lines tail (token kind taken d after' goals) := by
  refine .inl ⟨⟨after', goals⟩, ?_, h, hs, rfl⟩
  simp only [token, List.map_cons, List.map_nil, Lexeme.moved, hc, h.line]

theorem continues_fail (f : Fault) (hc : d.offset = c.offset + bytes)
    (ha : after'.line = after.line + lines) :
    (fail f c after).Continues bytes lines tail (fail f d after') := by
  intro _
  refine ⟨after', ?_⟩
  simp only [fail, Terminal.moved, hc, ha]

theorem continues_mark {m : Mark} (h : c.Continues bytes lines tail d) (hs : Sealed c.rest tail)
    (hp : c.peek = some m.char) : (mark m c goals).Continues bytes lines tail (mark m d goals) := by
  have hm : m.char ≠ '\n' := by cases m <;> decide
  rw [mark, mark, (h.take_rest hp).1]
  exact continues_token _ _ h.offset (h.next hp) (hs.next_of_ne hp hm)

theorem continues_name (role : NameRole) (h : c.Continues bytes lines tail d)
    (hs : Sealed c.rest tail) :
    (name role c goals).Continues bytes lines tail (name role d goals) := by
  obtain ⟨hread, hrest⟩ := NameSegment.read_of_sealed hs
  rw [← h.rest] at hread
  have hafter := (h.advance (NameSegment.read c.rest).taken (NameSegment.read c.rest).rest).look
  simp only [name, hread, Reading.before, hafter.peek hrest]
  split
  · exact continues_fail _ h.offset hafter.line
  · split
    · rename_i hp
      have hbehind : Sealed _ tail := Sealed.next_of_ne hrest hp (by decide)
      refine .inl ⟨⟨(d.advance _ ((NameSegment.read c.rest).rest ++ tail)).look.next,
        .name role :: goals⟩, ?_, hafter.next hp, hbehind, rfl⟩
      simp only [List.map_cons, List.map_nil, Lexeme.moved, h.offset, hafter.offset, hafter.line,
        (hafter.next hp).line, (hafter.take_rest hp).1]
    · split
      · exact continues_fail _ h.offset hafter.line
      · split
        · exact continues_token _ _ h.offset hafter hrest
        · exact continues_gap hafter hrest

theorem continues_string (role : StringRole) (h : c.Continues bytes lines tail d)
    (hs : Sealed c.rest tail) :
    (string role c goals).Continues bytes lines tail (string role d goals) := by
  by_cases hv : (StringLiteral.read c.rest).value = true
  · obtain ⟨hread, hrest⟩ := StringLiteral.read_of_sealed hs hv
    rw [← h.rest] at hread
    simp only [string, hread, Reading.before, hv, ↓reduceIte]
    exact continues_token _ _ h.offset (h.advance ..).look hrest
  · simp only [string, hv, Bool.false_eq_true, ↓reduceIte]
    -- a string that is not closed may go on into the tail
    intro ht
    subst ht
    have hrest : d.rest = c.rest := h.rest.trans (List.append_nil _)
    have hafter := (h.advance (StringLiteral.read c.rest).taken (StringLiteral.read c.rest).rest).look
    rw [hrest, if_neg hv]
    exact continues_fail _ h.offset hafter.line rfl

theorem continues_number (h : c.Continues bytes lines tail d) (hs : Sealed c.rest tail) :
    (number c goals).Continues bytes lines tail (number d goals) := by
  obtain ⟨hread, hrest⟩ := NumberLiteral.read_of_sealed hs
  rw [← h.rest] at hread
  have hafter := (h.advance (NumberLiteral.read c.rest).taken (NumberLiteral.read c.rest).rest).look
  simp only [number, hread, Reading.before]
  split
  · exact continues_token _ _ h.offset hafter hrest
  · exact continues_fail _ h.offset hafter.line

/-- A stretch within a line. -/
theorem skip_sealed (h : c.Continues bytes lines tail d) (hs : Sealed c.rest tail)
    (hp : p '\n' = false) : (c.skip p).Continues bytes lines tail (d.skip p) ∧
      Sealed (c.skip p).rest tail :=
  ⟨h.skip (hs.afterRun_ne_nil hp), hs.afterRun (hs.afterRun_ne_nil hp)⟩

theorem continues_comment (h : c.Continues bytes lines tail d) (hs : Sealed c.rest tail) :
    (comment mode c goals).Continues bytes lines tail (comment mode d goals) := by
  obtain ⟨hskip, hrest⟩ := skip_sealed (p := (!isLineEnd ·)) h hs rfl
  have hrun := (hs.run_append (p := (!isLineEnd ·)) rfl).1
  simp only [comment, h.rest, hrun]
  split
  · exact continues_token _ _ h.offset hskip hrest
  · exact continues_gap hskip hrest

theorem continues_leave {s : Series} (h : c.Continues bytes lines tail d) (hs : Sealed c.rest tail)
    {r : Char} (hp : c.peek = some r) (hend : s.isEnd r = true) :
    (leave s c goals).Continues bytes lines tail (leave s d goals) := by
  simp only [leave]
  split
  · rename_i m hm
    have hr : r = m.char := by simpa [Series.isEnd, hm] using hend
    exact continues_mark h hs (hr ▸ hp)
  · exact continues_gap h hs

theorem continues_elements {s : Series} {fixed : Option Char} (h : c.Continues bytes lines tail d)
    (hs : Sealed c.rest tail) : (elements mode s fixed c goals).Continues bytes lines tail
      (elements mode s fixed d goals) := by
  by_cases hne : tail = [] ∨ (c.skip isSpace).rest ≠ []
  · have hskip := h.skip hne
    have hrest := hs.afterRun hne
    simp only [elements, hskip.peek hrest]
    split
    · rename_i hend
      obtain ⟨r, hp, hr⟩ := (Option.any_eq_true _ _).mp hend
      exact continues_leave hskip hrest hp hr
    · split
      · exact continues_comment hskip hrest
      · exact continues_gap hskip hrest
  · rw [not_or, not_not] at hne
    have hpeek : (c.skip isSpace).peek = none := by rw [Cursor.peek, hne.2]; rfl
    simp only [elements, hpeek]
    exact .inr ⟨hne.1, hne.2, Goal.starve_element s _⟩

/-- A line feed that separates two elements may be the last rune. -/
theorem continues_separated {s : Series} {fixed : Option Char} (h : c.Continues bytes lines tail d)
    (hs : Sealed c.rest tail) {r : Char} (hp : c.peek = some r) :
    (next [] ⟨c.next, .elements s fixed :: goals⟩).Continues bytes lines tail
      (next [] ⟨d.next, .elements s fixed :: goals⟩) :=
  continues_starving (Goal.starve_elements s fixed goals) fun hne => ⟨h.next hp, hs.next hne⟩

theorem continues_separator {s : Series} {fixed : Option Char} (h : c.Continues bytes lines tail d)
    (hs : Sealed c.rest tail) : (separator mode s fixed c goals).Continues bytes lines tail
      (separator mode s fixed d goals) := by
  have hl := h.look
  have hblank := skip_sealed (p := isBlank) hl hs rfl
  have hline := skip_sealed (p := (!isLineEnd ·)) hl hs rfl
  simp only [separator, hl.peek hs]
  split
  · split
    · exact continues_gap hl hs
    · exact continues_fail _ hl.offset hl.line
  · rename_i r hp
    split
    · exact continues_separated hl hs hp
    · split
      · simp only [hblank.1.peek hblank.2]
        split
        · exact continues_gap hblank.1 hblank.2
        · split
          · exact continues_gap hblank.1 hblank.2
          · exact continues_gap hblank.1 hblank.2
      · split
        · split
          · exact continues_fail _ hl.offset (hl.next hp).line
          · split
            · exact continues_comment hl hs
            · exact continues_gap hline.1 hline.2
        · split
          · rename_i hend
            exact continues_leave hl hs hp hend
          · split
            · split
              · exact continues_fail _ hl.offset hl.line
              · exact continues_separated hl hs hp
            · exact continues_fail _ hl.offset (hl.next hp).line

theorem continues_construct {k : Construct} (h : c.Continues bytes lines tail d)
    (hs : Sealed c.rest tail) : (construct k c goals).Continues bytes lines tail
      (construct k d goals) := by
  have hl := h.look
  simp only [construct, hl.peek hs]
  split
  · exact continues_gap hl hs
  · rename_i hk
    exact continues_mark hl hs (Construct.next_of_take hk)
  · exact continues_fail _ hl.offset hl.line

theorem continues_topLevel (h : c.Continues bytes lines tail d) (hs : Sealed c.rest tail)
    (hne : tail = [] ∨ (c.skip isSpace).rest ≠ []) :
    (topLevel mode c).Continues bytes lines tail (topLevel mode d) := by
  have hl := h.look
  simp only [topLevel, hl.peek hs]
  split
  · intro _
    exact ⟨d.look, by rw [hl.offset, hl.line]; rfl⟩
  · rename_i r hp
    split
    · exact continues_gap (hl.skip hne) (hs.afterRun hne)
    · split
      · exact continues_comment hl hs
      · split
        · exact continues_string _ hl hs
        · split
          · exact continues_name _ hl hs
          · exact continues_fail _ hl.offset (hl.next hp).line

end Step

namespace State

variable {mode : Mode} {s t : State}

theorem step_continues (mode : Mode) (h : s.Continues bytes lines tail t)
    (hgoals : Goal.DescribesNames s.goals = true)
    (htop : s.goals = [] → tail = [] ∨ (s.cursor.skip isSpace).rest ≠ []) :
    (s.step mode).Continues bytes lines tail (t.step mode) := by
  obtain ⟨c, goals⟩ := s
  obtain ⟨d, goals'⟩ := t
  obtain ⟨hcursor, hs, hsame⟩ := h
  obtain rfl : goals' = goals := hsame
  cases goals' with
  | nil => exact Step.continues_topLevel hcursor hs (htop rfl)
  | cons g goals =>
    cases g with
    | blanks =>
      obtain ⟨hskip, hrest⟩ := Step.skip_sealed (p := isBlank) hcursor hs rfl
      exact Step.continues_gap hskip hrest
    | space =>
      exact Step.continues_starving (Goal.starve_of_space hgoals) fun hne =>
        ⟨hcursor.skip hne, hs.afterRun hne⟩
    | name role => exact Step.continues_name role hcursor hs
    | string role => exact Step.continues_string role hcursor hs
    | number => exact Step.continues_number hcursor hs
    | elements series fixed => exact Step.continues_elements hcursor hs
    | separator series fixed => exact Step.continues_separator hcursor hs
    | construct k => exact Step.continues_construct hcursor hs

end State

/-! ## Traces -/

/-- The second trace tells the same, so many bytes and lines further on. How far a scan has read is not
compared. -/
structure Trace.Moves (bytes lines : Nat) (t u : Trace) : Prop where
  lexemes : u.lexemes = t.lexemes.map (·.moved bytes lines)
  terminal : u.terminal = t.terminal.moved bytes lines

namespace State

variable {mode : Mode} {s t : State}

/-- Further on in a document a scan finds the same, further on. -/
theorem trace_moves (h : s.Continues bytes lines [] t) (hgoals : Goal.DescribesNames s.goals = true) :
    (s.trace mode).Moves bytes lines (t.trace mode) := by
  induction s using State.trace.induct mode generalizing t with
  | case1 s terminal c hs =>
    have hstep := step_continues mode h hgoals fun _ => .inl rfl
    rw [hs] at hstep
    obtain ⟨d, ht⟩ := hstep rfl
    rw [trace_of_halt hs, trace_of_halt ht]
    exact ⟨rfl, rfl⟩
  | case2 s found s' hs ih =>
    have hstep := step_continues mode h hgoals fun _ => .inl rfl
    rw [hs] at hstep
    obtain ⟨t', ht, hcontinues⟩ := hstep.resolve_right fun hspent => hspent.1 rfl
    obtain ⟨hlexemes, hterminal⟩ := ih hcontinues ((turns_of_next hs).describesNames hgoals)
    rw [trace_of_next hs, trace_of_next ht]
    exact ⟨by rw [List.map_append, ← hlexemes], hterminal⟩

/-- How far the source has been read changes nothing. -/
theorem trace_eq_of_rest (mode : Mode) (ho : d.offset = c.offset) (hl : d.line = c.line) (hr : d.rest = c.rest) :
    (trace mode ⟨d, []⟩).lexemes = (trace mode ⟨c, []⟩).lexemes ∧
      (trace mode ⟨d, []⟩).terminal = (trace mode ⟨c, []⟩).terminal := by
  have hmoves : (trace mode ⟨c, []⟩).Moves 0 0 (trace mode ⟨d, []⟩) :=
    trace_moves ⟨⟨ho, hl, by rw [hr, List.append_nil]⟩, Rune.sealed_nil _, rfl⟩ rfl
  have hid : (fun l : Lexeme => l.moved 0 0) = id := rfl
  refine ⟨by rw [hmoves.lexemes, hid, List.map_id], hmoves.terminal.trans ?_⟩
  cases (trace mode ⟨c, []⟩).terminal <;> rfl

/-- Between definitions, layout changes nothing. -/
theorem trace_skip (mode : Mode) (c : Cursor) :
    (trace mode ⟨c.skip isSpace, []⟩).lexemes = (trace mode ⟨c, []⟩).lexemes ∧
      (trace mode ⟨c.skip isSpace, []⟩).terminal = (trace mode ⟨c, []⟩).terminal := by
  by_cases hspace : c.peek.any isSpace = true
  · obtain ⟨r, hp, hr⟩ := (Option.any_eq_true _ _).mp hspace
    have hstep : step mode ⟨c, []⟩ = .next [] ⟨c.look.skip isSpace, []⟩ := by
      simp only [step, Step.topLevel, Cursor.peek_look, hp, hr, ↓reduceIte]
    rw [trace_of_next hstep]
    exact trace_eq_of_rest mode rfl rfl rfl
  · have hrun : Rune.run isSpace c.rest = [] := by
      cases hr : c.rest with
      | nil => rfl
      | cons r rest => exact List.takeWhile_cons_of_neg (by simpa [Cursor.peek, hr] using hspace)
    have hrest := Rune.run_append_afterRun isSpace c.rest
    rw [hrun, List.nil_append] at hrest
    refine trace_eq_of_rest mode ?_ ?_ hrest
    · simp [Cursor.skip, Cursor.look, Cursor.advance, hrun]
    · simp [Cursor.skip, Cursor.look, Cursor.advance, hrun, Rune.lineFeeds]

theorem trace_of_rest_nil (mode : Mode) (hc : c.rest = []) :
    trace mode ⟨c, []⟩ = ⟨[], .eof c.offset c.line, c.look.seen⟩ := by
  have hpeek : c.peek = none := by rw [Cursor.peek, hc]; rfl
  exact trace_of_halt (by simp only [step, Step.topLevel, Cursor.peek_look, hpeek]; rfl)

/-- Layout in front of the tail and layout in the tail are passed over together. -/
theorem trace_append_of_layout {e : Cursor} (h : c.Continues bytes lines tail d)
    (hnil : (c.skip isSpace).rest = []) (hrest : e.rest = tail)
    (hoffset : e.offset = (c.skip isSpace).offset + bytes)
    (hline : e.line = (c.skip isSpace).line + lines) :
    (trace mode ⟨d, []⟩).lexemes = (trace mode ⟨e, []⟩).lexemes ∧
      (trace mode ⟨d, []⟩).terminal = (trace mode ⟨e, []⟩).terminal := by
  have hall : ∀ r ∈ c.rest, isSpace r.char = true := List.dropWhile_eq_nil_iff.mp hnil
  have hrun : Rune.run isSpace c.rest = c.rest := List.takeWhile_eq_self_iff.mpr hall
  have hruns : Rune.run isSpace d.rest = c.rest ++ Rune.run isSpace e.rest := by
    rw [h.rest, hrest]
    exact List.takeWhile_append_of_pos hall
  have hafter : Rune.afterRun isSpace d.rest = Rune.afterRun isSpace e.rest := by
    rw [h.rest, hrest]
    exact List.dropWhile_append_of_pos hall
  have ho : (d.skip isSpace).offset = (e.skip isSpace).offset := by
    simp only [Cursor.skip, Cursor.look, Cursor.advance, hruns, hrun, Rune.span_append] at hoffset ⊢
    rw [h.offset, hoffset]
    omega
  have hl : (d.skip isSpace).line = (e.skip isSpace).line := by
    simp only [Cursor.skip, Cursor.look, Cursor.advance, hruns, hrun, Rune.lineFeeds_append] at hline ⊢
    rw [h.line, hline]
    omega
  obtain ⟨hlexemes, hterminal⟩ := trace_eq_of_rest mode ho hl hafter
  obtain ⟨hd, hd'⟩ := trace_skip mode d
  obtain ⟨he, he'⟩ := trace_skip mode e
  exact ⟨hd.symm.trans (hlexemes.trans he), hd'.symm.trans (hterminal.trans he')⟩

/-- A scan that ends between definitions goes on there with what follows its source. -/
theorem trace_append {e : Cursor} (h : s.Continues bytes lines tail t)
    (hgoals : Goal.DescribesNames s.goals = true) {start line : Nat}
    (hend : (s.trace mode).terminal = .eof start line) (hrest : e.rest = tail)
    (hoffset : e.offset = start + bytes) (hline : e.line = line + lines) :
    (t.trace mode).lexemes =
        (s.trace mode).lexemes.map (·.moved bytes lines) ++ (trace mode ⟨e, []⟩).lexemes ∧
      (t.trace mode).terminal = (trace mode ⟨e, []⟩).terminal := by
  induction s using State.trace.induct mode generalizing t with
  | case1 s terminal c hs =>
    rw [trace_of_halt hs] at hend ⊢
    obtain rfl : terminal = .eof start line := hend
    have hfrom := s.step_from mode
    rw [hs] at hfrom
    obtain ⟨⟨hnil, -, -⟩, -⟩ := hfrom
    have hsealed := h.isSealed
    rw [hnil] at hsealed
    have htail : tail = [] := hsealed.tail_eq_nil
    have hstep := step_continues mode h hgoals fun _ => .inl htail
    rw [hs] at hstep
    obtain ⟨d, ht⟩ := hstep htail
    rw [trace_of_halt ht, trace_of_rest_nil mode (hrest.trans htail), hoffset, hline]
    exact ⟨rfl, rfl⟩
  | case2 s found s' hs ih =>
    by_cases hlayout : s.goals = [] ∧ (s.cursor.skip isSpace).rest = []
    · -- the layout at the end and that of the tail are one piece, so the steps differ from here on
      obtain ⟨c, goals⟩ := s
      obtain ⟨d, goals'⟩ := t
      obtain ⟨rfl, hnil⟩ := hlayout
      obtain rfl : goals' = [] := h.goals
      obtain ⟨hlexemes, hterminal⟩ := trace_skip mode c
      rw [trace_of_rest_nil mode hnil] at hlexemes hterminal
      obtain ⟨rfl, rfl⟩ : (c.skip isSpace).offset = start ∧ (c.skip isSpace).line = line := by
        simpa using hterminal.trans hend
      rw [← hlexemes]
      exact trace_append_of_layout h.cursor hnil hrest hoffset hline
    · have hne : s.goals = [] → tail = [] ∨ (s.cursor.skip isSpace).rest ≠ [] :=
        fun hg => .inr fun hn => hlayout ⟨hg, hn⟩
      have hstep := step_continues mode h hgoals hne
      rw [trace_of_next hs] at hend ⊢
      rw [hs] at hstep
      rcases hstep with ⟨t', ht, hcontinues⟩ | ⟨-, hnil, hstarve⟩
      · obtain ⟨hlexemes, hterminal⟩ := ih hcontinues ((turns_of_next hs).describesNames hgoals) hend
        rw [trace_of_next ht]
        exact ⟨by rw [List.map_append, List.append_assoc, ← hlexemes], hterminal⟩
      · -- a goal that is left without a rune does not end well
        obtain ⟨f, start', line', hfault⟩ := hstarve mode s'.cursor hnil
        rw [hfault] at hend
        cases hend

end State

end SchemaScan
