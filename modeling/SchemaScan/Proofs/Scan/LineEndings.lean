import SchemaScan.Proofs.Scan.Gaps
import SchemaScan.Proofs.Text.LineEndings

/-! # Line feeds with returns

If every line feed of a source gets a carriage return in front of it, the two scans go on step by step
and find the same tokens, except where a line feed separates elements. There the carriage return is
the first character behind the element, and it is no separator.
-/
namespace SchemaScan

/-! ## Cursors -/

/-- The second cursor stands where the first one does, in front of runes with returns. -/
structure Cursor.Mirrors (c d : Cursor) : Prop where
  line : d.line = c.line
  rest : d.rest = Rune.withReturns c.rest

namespace Cursor.Mirrors

variable {c d : Cursor} {p : Char → Bool}

theorem look (h : c.Mirrors d) : c.look.Mirrors d.look := ⟨h.line, h.rest⟩

theorem advance (h : c.Mirrors d) (taken rest : List Rune) :
    (c.advance taken rest).Mirrors (d.advance taken (Rune.withReturns rest)) :=
  ⟨congrArg (· + Rune.lineFeeds taken) h.line, rfl⟩

theorem skip (h : c.Mirrors d) (hp : p '\r' = p '\n') : (c.skip p).Mirrors (d.skip p) := by
  obtain ⟨hrun, hafter⟩ := Rune.run_withReturns hp c.rest
  rw [← h.rest] at hrun hafter
  refine ⟨?_, hafter⟩
  change d.line + Rune.lineFeeds (Rune.run p d.rest) = c.line + Rune.lineFeeds (Rune.run p c.rest)
  rw [h.line, hrun, Rune.lineFeeds_withReturns]

theorem peek (h : c.Mirrors d) : d.peek = c.peek.map fun x => if x = '\n' then '\r' else x := by
  rw [Cursor.peek, h.rest]
  exact Rune.head?_withReturns c.rest

theorem peek_of_eq (h : c.Mirrors d) (hc : c.peek = some '\n') : d.peek = some '\r' := by
  rw [h.peek, hc]
  rfl

theorem peek_of_ne (h : c.Mirrors d) (hc : c.peek ≠ some '\n') : d.peek = c.peek := by
  rw [h.peek]
  cases hp : c.peek with
  | none => rfl
  | some x =>
    have hx : x ≠ '\n' := fun he => hc (hp.trans (congrArg some he))
    rw [Option.map_some, if_neg hx]

theorem peek_eq_some_iff (h : c.Mirrors d) {x : Char} (hr : x ≠ '\r') (hn : x ≠ '\n') :
    d.peek = some x ↔ c.peek = some x := by
  by_cases hc : c.peek = some '\n'
  · rw [h.peek_of_eq hc, hc]
    simp [hr.symm, hn.symm]
  · rw [h.peek_of_ne hc]

theorem all_peek (h : c.Mirrors d) (hp : p '\r' = p '\n') : d.peek.all p = c.peek.all p := by
  by_cases hc : c.peek = some '\n'
  · rw [h.peek_of_eq hc, hc]
    exact hp
  · rw [h.peek_of_ne hc]

theorem rest_of_ne (h : c.Mirrors d) (hc : c.peek ≠ some '\n') :
    d.rest.take 1 = c.rest.take 1 ∧ d.rest.drop 1 = Rune.withReturns (c.rest.drop 1) := by
  rw [h.rest]
  cases hr : c.rest with
  | nil => exact ⟨rfl, rfl⟩
  | cons r rest =>
    have hne : r.char ≠ '\n' := fun he => hc (by rw [Cursor.peek, hr, ← he]; rfl)
    rw [Rune.withReturns_cons_of_ne rest hne]
    exact ⟨rfl, rfl⟩

theorem next (h : c.Mirrors d) (hc : c.peek ≠ some '\n') : c.next.Mirrors d.next := by
  obtain ⟨htake, hdrop⟩ := h.rest_of_ne hc
  rw [Cursor.next, Cursor.next, htake, hdrop]
  exact h.advance ..

end Cursor.Mirrors

/-! ## Steps -/

/-- A token without its place. -/
def Lexeme.face (l : Lexeme) : Kind × List Rune × Nat := (l.kind, l.runes, l.line)

/-- No line ends in the token. -/
def Lexeme.IsUnbroken (l : Lexeme) : Prop := ∀ r ∈ l.runes, r.char ≠ '\n'

/-- The goals are the same, and the second cursor mirrors the first one. -/
structure State.Mirrors (s t : State) : Prop where
  cursor : s.cursor.Mirrors t.cursor
  goals : t.goals = s.goals

theorem Series.return_notMem_separators (s : Series) : '\r' ∉ s.separators := by
  cases s with
  | directives site => simp [separators]
  | _ => decide

theorem Series.lineFeed_notMem_separators {s : Series} (h : s.endsAtLine = true) :
    '\n' ∉ s.separators := by
  cases s with
  | directives site => simp [separators]
  | interfaces | unionMembers | locations => decide
  | _ => cases h

/-- No construct tells the ends of a line apart, where it goes on at all. -/
theorem Construct.choose_return (k : Construct) : (∃ f, k.choose (some '\n') = .fail f) ∨
    ∃ inner, k.choose (some '\n') = .expand inner ∧ k.choose (some '\r') = .expand inner := by
  cases k with
  | optional m => exact .inr ⟨[], by cases m <;> rfl, by cases m <;> rfl⟩
  | required place => cases place <;> exact .inl ⟨_, rfl⟩
  | typeName k => exact .inl ⟨_, rfl⟩
  | unknown k => exact .inl ⟨_, rfl⟩
  | imports => exact .inl ⟨_, rfl⟩
  | value => exact .inl ⟨_, rfl⟩
  | _ => exact .inr ⟨_, rfl, rfl⟩

namespace Step

/-- The second step does what the first one does, unless that breaks a token or ends in a fault. -/
def Mirrors : Step → Step → Prop
  | next found s, step => (∀ l ∈ found, l.IsUnbroken) → ∃ found' t, step = next found' t ∧
      found'.map Lexeme.face = found.map Lexeme.face ∧ s.Mirrors t
  | halt (.eof _ line) _, step => ∃ stop c, step = halt (.eof stop line) c
  | halt (.fault ..) _, _ => True

variable {mode : Mode} {c d after after' : Cursor} {goals : List Goal}

theorem mirrors_gap (h : c.Mirrors d) : (next [] ⟨c, goals⟩).Mirrors (next [] ⟨d, goals⟩) :=
  fun _ => ⟨_, _, rfl, rfl, h, rfl⟩

theorem mirrors_token (kind : Kind) (taken : List Rune) (h : after.Mirrors after') :
    (token kind taken c after goals).Mirrors (token kind taken d after' goals) := by
  refine fun _ => ⟨_, _, rfl, ?_, h, rfl⟩
  simp [Lexeme.face, h.line]

theorem mirrors_mark (m : Mark) (h : c.Mirrors d) (hc : c.peek ≠ some '\n') :
    (mark m c goals).Mirrors (mark m d goals) := by
  rw [mark, mark, (h.rest_of_ne hc).1]
  exact mirrors_token _ _ (h.next hc)

theorem mirrors_name (role : NameRole) (h : c.Mirrors d) :
    (name role c goals).Mirrors (name role d goals) := by
  have hread := NameSegment.read_withReturns c.rest
  rw [← h.rest] at hread
  have hafter := (h.advance (NameSegment.read c.rest).taken (NameSegment.read c.rest).rest).look
  have hperiod := hafter.peek_eq_some_iff (x := '.') (by decide) (by decide)
  simp only [name, hread, Reading.withReturns, hperiod]
  split
  · trivial
  · split
    · rename_i hp
      have hne : (c.advance (NameSegment.read c.rest).taken
          (NameSegment.read c.rest).rest).look.peek ≠ some '\n' := by
        rw [hp]
        decide
      refine fun _ => ⟨_, _, rfl, ?_, hafter.next hne, rfl⟩
      simp only [Lexeme.face, List.map_cons, List.map_nil, hafter.line, (hafter.next hne).line,
        (hafter.rest_of_ne hne).1]
    · split
      · trivial
      · split
        · exact mirrors_token _ _ hafter
        · exact mirrors_gap hafter

theorem mirrors_string (role : StringRole) (h : c.Mirrors d) :
    (string role c goals).Mirrors (string role d goals) := by
  simp only [string]
  split
  · rename_i hv
    intro hfound
    have hunbroken : ∀ r ∈ (StringLiteral.read c.rest).taken, r.char ≠ '\n' :=
      hfound _ List.mem_cons_self
    have hread := StringLiteral.read_withReturns hunbroken
    rw [← h.rest] at hread
    simp only [hread, Reading.withReturns, hv, ↓reduceIte]
    exact mirrors_token _ _ (h.advance ..).look hfound
  · trivial

theorem mirrors_number (h : c.Mirrors d) : (number c goals).Mirrors (number d goals) := by
  have hread := NumberLiteral.read_withReturns c.rest
  rw [← h.rest] at hread
  simp only [number, hread, Reading.withReturns]
  split
  · exact mirrors_token _ _ (h.advance ..).look
  · trivial

theorem mirrors_comment (h : c.Mirrors d) :
    (comment mode c goals).Mirrors (comment mode d goals) := by
  have hskip : (c.skip (!isLineEnd ·)).Mirrors (d.skip (!isLineEnd ·)) := h.skip rfl
  obtain ⟨hrun, -⟩ := @Rune.run_withReturns_of_not (!isLineEnd ·) rfl rfl c.rest
  rw [← h.rest] at hrun
  simp only [comment, hrun]
  split
  · exact mirrors_token _ _ hskip
  · exact mirrors_gap hskip

theorem mirrors_leave {s : Series} (h : c.Mirrors d)
    (hc : s.endsAtLine = false → c.peek ≠ some '\n') :
    (leave s c goals).Mirrors (leave s d goals) := by
  simp only [leave]
  split
  · rename_i m hm
    refine mirrors_mark m h (hc ?_)
    simp [Series.endsAtLine, hm]
  · exact mirrors_gap h

theorem mirrors_elements (s : Series) (fixed : Option Char) (h : c.Mirrors d) :
    (elements mode s fixed c goals).Mirrors (elements mode s fixed d goals) := by
  have hskip : (c.skip isSpace).Mirrors (d.skip isSpace) := h.skip rfl
  have hne : (c.skip isSpace).peek ≠ some '\n' := by
    intro hn
    have := c.peek_skip isSpace
    rw [hn] at this
    exact absurd this (by decide)
  simp only [elements, hskip.peek_of_ne hne]
  split
  · exact mirrors_leave hskip fun _ => hne
  · split
    · exact mirrors_comment hskip
    · exact mirrors_gap hskip

/-- Where a line ends, a series that ends with its line ends too. -/
theorem separator_of_lineEnd {s : Series} {fixed : Option Char} (hline : s.endsAtLine = true)
    (hk : (Goal.separator s fixed).Keeps) {x : Char} (hx : isLineEnd x = true)
    (hc : c.peek = some x) : separator mode s fixed c goals = .next [] ⟨c.look, goals⟩ := by
  obtain ⟨stops, hstops⟩ := Series.ending_of_endsAtLine hline
  have hend : s.isEnd x = true := by
    simp [Series.isEnd, hstops, hx]
  obtain ⟨hblank, hcomment, -⟩ := Series.notEnd_of_isEnd hend
  have hfixed : fixed ≠ some x := by
    intro he
    have hchar : x = '\r' ∨ x = '\n' := by simpa [isLineEnd] using hx
    rcases hchar with rfl | rfl
    · exact s.return_notMem_separators (hk _ he)
    · exact Series.lineFeed_notMem_separators hline (hk _ he)
  simp [separator, hc, hfixed, hblank, hcomment, hend, leave, hstops]

theorem mirrors_separator {s : Series} {fixed : Option Char}
    (hk : (Goal.separator s fixed).Keeps) (h : c.Mirrors d)
    (hc : s.endsAtLine = false → c.peek ≠ some '\n') :
    (separator mode s fixed c goals).Mirrors (separator mode s fixed d goals) := by
  by_cases hn : c.peek = some '\n'
  · have hline : s.endsAtLine = true := by
      cases he : s.endsAtLine with
      | true => rfl
      | false => exact absurd hn (hc he)
    rw [separator_of_lineEnd hline hk rfl hn, separator_of_lineEnd hline hk rfl (h.peek_of_eq hn)]
    exact mirrors_gap h.look
  · have hblanks : (c.look.skip isBlank).Mirrors (d.look.skip isBlank) := h.look.skip rfl
    have hends : s.isEnd '\r' = s.isEnd '\n' := by
      cases s with
      | directives site => cases site <;> rfl
      | _ => rfl
    simp only [separator, Cursor.peek_look, h.peek_of_ne hn, hblanks.all_peek hends]
    split
    · split
      · exact mirrors_gap h.look
      · trivial
    · split
      · exact mirrors_gap (h.look.next hn)
      · split
        · split
          · exact mirrors_gap hblanks
          · split
            · exact mirrors_gap hblanks
            · exact mirrors_gap hblanks
        · split
          · split
            · trivial
            · split
              · exact mirrors_comment h.look
              · exact mirrors_gap (h.look.skip rfl)
          · split
            · exact mirrors_leave h.look fun _ => hn
            · split
              · split
                · trivial
                · exact mirrors_gap (h.look.next hn)
              · trivial

theorem mirrors_construct (k : Construct) (h : c.Mirrors d) :
    (construct k c goals).Mirrors (construct k d goals) := by
  by_cases hn : c.peek = some '\n'
  · simp only [construct, Cursor.peek_look, hn, h.peek_of_eq hn]
    rcases k.choose_return with ⟨f, hf⟩ | ⟨inner, hline, hreturn⟩
    · rw [hf]
      trivial
    · rw [hline, hreturn]
      exact mirrors_gap h.look
  · simp only [construct, Cursor.peek_look, h.peek_of_ne hn]
    split
    · exact mirrors_gap h.look
    · exact mirrors_mark _ h.look hn
    · trivial

theorem mirrors_topLevel (h : c.Mirrors d) : (topLevel mode c).Mirrors (topLevel mode d) := by
  by_cases hn : c.peek = some '\n'
  · have hspace : (c.look.skip isSpace).Mirrors (d.look.skip isSpace) := h.look.skip rfl
    simp only [topLevel, Cursor.peek_look, hn, h.peek_of_eq hn]
    exact mirrors_gap hspace
  · simp only [topLevel, Cursor.peek_look, h.peek_of_ne hn]
    split
    · exact ⟨_, _, by rw [h.look.line]⟩
    · split
      · exact mirrors_gap (h.look.skip rfl)
      · split
        · exact mirrors_comment h.look
        · split
          · exact mirrors_string _ h.look
          · split
            · exact mirrors_name _ h.look
            · trivial

end Step

/-! ## Runs -/

namespace State

variable {mode : Mode} {s t : State}

/-- Behind an element of a series that ends with a closing mark, and in front of a line feed. -/
def AtLineFeed (s : State) : Prop := s.isBehindElement = true ∧ s.cursor.peek = some '\n'

theorem step_mirrors (mode : Mode) (h : s.Mirrors t) (hk : Goal.AllKeep s.goals)
    (hs : ¬s.AtLineFeed) : (s.step mode).Mirrors (t.step mode) := by
  obtain ⟨c, goals⟩ := s
  obtain ⟨d, goals'⟩ := t
  obtain ⟨hcursor, rfl⟩ : c.Mirrors d ∧ goals' = goals := ⟨h.cursor, h.goals⟩
  cases goals' with
  | nil => exact Step.mirrors_topLevel hcursor
  | cons g goals =>
    obtain ⟨hg, -⟩ := Goal.allKeep_cons.mp hk
    cases g with
    | blanks => exact Step.mirrors_gap (hcursor.skip rfl)
    | space => exact Step.mirrors_gap (hcursor.skip rfl)
    | name role => exact Step.mirrors_name role hcursor
    | string role => exact Step.mirrors_string role hcursor
    | number => exact Step.mirrors_number hcursor
    | elements series fixed => exact Step.mirrors_elements series fixed hcursor
    | separator series fixed =>
      refine Step.mirrors_separator hg hcursor fun hline hn => hs ⟨?_, hn⟩
      simp [isBehindElement, hline]
    | construct k => exact Step.mirrors_construct k hcursor

/-- The return is no separator. -/
theorem step_of_atLineFeed (mode : Mode) (h : s.Mirrors t) (hk : Goal.AllKeep s.goals)
    (hs : s.AtLineFeed) : ∃ start line c,
      t.step mode = .halt (.fault (.invalidSeparator (some '\r')) start line) c := by
  obtain ⟨d, goals⟩ := t
  obtain ⟨c, series, fixed, rest, rfl, hline⟩ := exists_of_isBehindElement hs.1
  obtain rfl : goals = .separator series fixed :: rest := h.goals
  have hpeek : d.peek = some '\r' := h.cursor.peek_of_eq hs.2
  have hfixed : fixed ≠ some '\r' := fun he =>
    series.return_notMem_separators ((Goal.allKeep_cons.mp hk).1 _ he)
  have hblank : isBlank '\r' = false := rfl
  obtain ⟨m, hm⟩ := Series.ending_of_not_endsAtLine hline
  have hend : series.isEnd '\r' = false := by
    simp only [Series.isEnd, hm]
    cases m <;> rfl
  have hsep := series.return_notMem_separators
  refine ⟨d.offset, d.look.next.line, d.look.next, ?_⟩
  simp [step, Step.separator, hpeek, hfixed, hblank, hend, hsep, Step.fail]
  rfl

/-- From a state that is visited the scan has come one step further, if any. -/
theorem Visits.cases_step {u : State} {found : List Lexeme} (h : s.step mode = .next found t)
    (hu : s.Visits mode u) : u = s ∨ t.Visits mode u := by
  rcases Relation.ReflTransGen.cases_head hu with rfl | ⟨v, ⟨more, hv⟩, hu⟩
  · exact .inl rfl
  · rw [h] at hv
    cases hv
    exact .inr hu

theorem Visits.eq_of_halt {u : State} {terminal : Terminal} {c : Cursor}
    (h : s.step mode = .halt terminal c) (hu : s.Visits mode u) : u = s := by
  rcases Relation.ReflTransGen.cases_head hu with rfl | ⟨v, ⟨more, hv⟩, -⟩
  · rfl
  · rw [h] at hv
    cases hv

/-- What becomes of a scan that finds no broken token and reaches the end: with returns it finds the same
tokens and reaches the end, or it comes to a line feed behind an element and fails there. -/
inductive Outcome (mode : Mode) (s t : State) (line : Nat) : Prop
  | same (hs : ∀ u, s.Visits mode u → ¬u.AtLineFeed)
      (hl : (t.trace mode).lexemes.map Lexeme.face = (s.trace mode).lexemes.map Lexeme.face)
      (ht : ∃ stop, (t.trace mode).terminal = .eof stop line)
  | fault (hs : ∃ u, s.Visits mode u ∧ u.AtLineFeed)
      (ht : ∃ start line,
        (t.trace mode).terminal = .fault (.invalidSeparator (some '\r')) start line)

theorem outcome_of_atLineFeed {line : Nat} (h : s.Mirrors t) (hk : Goal.AllKeep s.goals)
    (hs : s.AtLineFeed) : Outcome mode s t line := by
  obtain ⟨start, stop, c, hstep⟩ := step_of_atLineFeed mode h hk hs
  refine .fault ⟨s, .refl, hs⟩ ⟨start, stop, ?_⟩
  rw [trace_of_halt hstep]

theorem trace_outcome (h : s.Mirrors t) (hk : Goal.AllKeep s.goals) {stop line : Nat}
    (hend : (s.trace mode).terminal = .eof stop line)
    (hl : ∀ l ∈ (s.trace mode).lexemes, l.IsUnbroken) : Outcome mode s t line := by
  -- up to the first line feed behind an element the scans go on in step
  induction s using State.trace.induct mode generalizing t with
  | case1 s terminal c hstep =>
    by_cases hs : s.AtLineFeed
    · exact outcome_of_atLineFeed h hk hs
    · have hmirrors := step_mirrors mode h hk hs
      rw [trace_of_halt hstep] at hend
      obtain rfl : terminal = .eof stop line := hend
      rw [hstep] at hmirrors
      obtain ⟨stop', d, ht⟩ := hmirrors
      refine .same (fun u hu => Visits.eq_of_halt hstep hu ▸ hs) ?_ ⟨stop', ?_⟩
      · rw [trace_of_halt hstep, trace_of_halt ht]
      · rw [trace_of_halt ht]
  | case2 s found s' hstep ih =>
    by_cases hs : s.AtLineFeed
    · exact outcome_of_atLineFeed h hk hs
    · have hmirrors := step_mirrors mode h hk hs
      have hstepsTo : s.StepsTo mode s' := ⟨found, hstep⟩
      rw [trace_of_next hstep] at hend hl
      obtain ⟨hfound, hrest⟩ := List.forall_mem_append.mp hl
      rw [hstep] at hmirrors
      obtain ⟨found', t', ht, hfaces, h'⟩ := hmirrors hfound
      rcases ih h' (hstepsTo.keeps hk) hend hrest with ⟨hsafe, hlexemes, stop', hend'⟩ | ⟨hbad, hfault⟩
      · refine .same ?_ ?_ ⟨stop', ?_⟩
        · intro u hu
          rcases Visits.cases_step hstep hu with rfl | hu
          · exact hs
          · exact hsafe u hu
        · rw [trace_of_next hstep, trace_of_next ht]
          simp only [List.map_append, hfaces, hlexemes]
        · rw [trace_of_next ht]
          exact hend'
      · obtain ⟨u, hu, hat⟩ := hbad
        refine .fault ⟨u, .head hstepsTo hu, hat⟩ ?_
        rw [trace_of_next ht]
        exact hfault

/-- The scans of a source and of the source with its returns start at mirrored states. -/
theorem initial_mirrors (source : List UInt8) :
    (initial source).Mirrors (initial (Utf8.withReturns source)) := by
  have hstart : (Cursor.start (Rune.read source)).Mirrors
      (Cursor.start (Rune.read (Utf8.withReturns source))) := ⟨rfl, Rune.read_withReturns source⟩
  have hmark := hstart.peek_eq_some_iff (x := byteOrderMark) (by decide) (by decide)
  simp only [initial, hmark]
  split
  · rename_i hm
    exact ⟨hstart.next (by rw [hm]; decide), rfl⟩
  · exact ⟨hstart, rfl⟩

end State

/-! ## Documents -/

/-- A token in whose span there is no line feed has none among its runes. -/
theorem Lexeme.LiesIn.isUnbroken {source : List UInt8} {l : Lexeme} {base start stop : Nat}
    (h : l.LiesIn (Rune.read source)) (hs : (l.item base).Spans base source start stop)
    (hlf : 0x0A ∉ (source.take stop).drop start) : l.IsUnbroken := by
  obtain ⟨⟨before, rest, hall, hstart, hline⟩, -, hkind⟩ := h
  have hne : (l.item base).kind ≠ .error := by
    intro he
    rw [show (l.item base).kind = l.kind from rfl] at he
    rw [he] at hkind
    cases hkind
  have hlines : l.line = 1 + (source.take stop).count 0x0A := hs.line hne
  have hpos : start = l.start := Nat.add_left_cancel hs.pos.symm
  have hbefore : (source.take start).count 0x0A = Rune.lineFeeds before := by
    have hall : Rune.read source = before ++ [] ++ (l.runes ++ rest) := by
      rw [hall]
      simp
    have hcount := (Rune.slice_of_split hall).2.2
    rwa [Rune.span_nil, Nat.add_zero, List.append_nil, ← hstart, ← hpos] at hcount
  have hsame : (source.take stop).count 0x0A = (source.take start).count 0x0A := by
    have hsplit := List.take_append_drop start (source.take stop)
    rw [List.take_take, Nat.min_eq_left hs.ordered] at hsplit
    rw [← hsplit, List.count_append, List.count_eq_zero.mpr hlf, Nat.add_zero]
  rw [hsame, hbefore, hline, Rune.lineFeeds_append] at hlines
  have hnone : Rune.lineFeeds l.runes = 0 := by omega
  intro r hr
  simpa using List.countP_eq_zero.mp hnone r hr

/-- What an item says apart from its place. -/
def Item.face (item : Item) : Kind × String × Nat := (item.kind, item.text, item.line)

theorem Trace.map_items (t : Trace) (base : Nat) : (t.items base).map Item.face =
    (t.lexemes.map Lexeme.face).map (fun face => (face.1, Rune.text face.2.1, face.2.2)) ++
      [(t.terminal.item base).face] := by
  rw [items, List.map_append, List.map_map, List.map_map]
  rfl

/-- If no line feed lies in an item, the scan of the source with returns gives the same items, unless the
scan stands in front of a line feed behind an element of a series that ends with a closing mark; then it
fails there. -/
theorem Document.scan_withReturns {doc after : Document} {source : List UInt8} {mode : Mode}
    {items : List Item} {spans : List (Nat × Nat)}
    (h : doc.scan source mode = .ok (items, after))
    (hend : items.getLast?.map (·.kind) = some .eof)
    (hspans : List.Forall₂ (fun item span => item.Spans doc.base source span.1 span.2) items spans)
    (hlf : ∀ span ∈ spans, 0x0A ∉ (source.take span.2).drop span.1) :
    ∃ items' after', { doc with size := (Utf8.withReturns source).length }.scan
        (Utf8.withReturns source) mode = .ok (items', after') ∧
      ((∀ t, (State.initial source).Visits mode t → ¬t.AtLineFeed) →
        items'.map Item.face = items.map Item.face) ∧
      ((∃ t, (State.initial source).Visits mode t ∧ t.AtLineFeed) →
        items'.getLast?.map (fun item => (item.kind, item.text)) =
          some (.error, (Fault.invalidSeparator (some '\r')).message)) := by
  obtain ⟨rfl, stop, line, hterminal⟩ := Document.trace_of_scan h hend
  obtain ⟨before, hinit⟩ := State.initial_crosses source
  obtain ⟨c, d, hp, -, -⟩ := (State.initial source).trace_passage mode
  -- the lines of the items tell that no line ends in a token
  have hunbroken : ∀ l ∈ (Trace.ofSource mode source).lexemes, l.IsUnbroken := by
    intro l hl
    have hitem : l.item doc.base ∈ (Trace.ofSource mode source).items doc.base :=
      List.mem_append_left _ (List.mem_map_of_mem hl)
    obtain ⟨i, hi, hget⟩ := List.getElem_of_mem hitem
    have hi' : i < spans.length := hspans.length_eq ▸ hi
    have hspan := hspans.get hi hi'
    rw [List.get_eq_getElem, List.get_eq_getElem, hget] at hspan
    exact (hp.liesIn hinit l hl).isUnbroken hspan (hlf _ (List.getElem_mem hi'))
  refine ⟨_, _, if_pos rfl, ?_⟩
  rcases State.trace_outcome (State.initial_mirrors source) (State.initial_keeps source) hterminal
    hunbroken with ⟨hsafe, hlexemes, stop', hterminal'⟩ | ⟨⟨u, hu, hat⟩, start, stop', hterminal'⟩
  · have hlexemes : (Trace.ofSource mode (Utf8.withReturns source)).lexemes.map Lexeme.face =
        (Trace.ofSource mode source).lexemes.map Lexeme.face := hlexemes
    have hterminal' : (Trace.ofSource mode (Utf8.withReturns source)).terminal = .eof stop' line :=
      hterminal'
    constructor
    · intro _
      rw [Trace.map_items, Trace.map_items, hlexemes, hterminal, hterminal']
      rfl
    · rintro ⟨t, ht, hat⟩
      exact absurd hat (hsafe t ht)
  · have hterminal' : (Trace.ofSource mode (Utf8.withReturns source)).terminal =
        .fault (.invalidSeparator (some '\r')) start stop' := hterminal'
    constructor
    · intro hsafe
      exact absurd hat (hsafe u hu)
    · intro _
      rw [Trace.items, List.getLast?_concat, hterminal']
      rfl

/-- Line feeds behind a bracket and behind a definition separate no elements. -/
theorem Document.scan_withReturns_imports :
    let source := "import (\n\"a\")\n".toUTF8.data.toList
    let spans := [(0, 6), (7, 8), (9, 12), (12, 13), (14, 14)]
    ∃ items after,
      ({ name := "a", base := 1, size := 14 } : Document).scan source {} = .ok (items, after) ∧
      items.getLast?.map (·.kind) = some .eof ∧
      List.Forall₂ (fun item span => item.Spans 1 source span.1 span.2) items spans ∧
      (∀ span ∈ spans, 0x0A ∉ (source.take span.2).drop span.1) ∧
      ∃ items' after', { name := "a", base := 1, size := (Utf8.withReturns source).length : Document }.scan
          (Utf8.withReturns source) {} = .ok (items', after') ∧
        ((∀ t, (State.initial source).Visits {} t → ¬t.AtLineFeed) →
          items'.map Item.face = items.map Item.face) ∧
        ((∃ t, (State.initial source).Visits {} t ∧ t.AtLineFeed) →
          items'.getLast?.map (fun item => (item.kind, item.text)) =
            some (.error, (Fault.invalidSeparator (some '\r')).message)) := by
  intro source spans
  have hscan : ({ name := "a", base := 1, size := 14 } : Document).scan source {} =
      .ok ((Trace.ofSource {} source).items 1, _) := if_pos (by decide +kernel)
  have hend : ((Trace.ofSource {} source).items 1).getLast?.map (·.kind) = some .eof := by
    decide +kernel
  have hspans : (Trace.ofSource {} source).spans = spans := by decide +kernel
  obtain ⟨hitems, -⟩ := Trace.items_spans {} source 1
  rw [hspans] at hitems
  have hlf : ∀ span ∈ spans, 0x0A ∉ (source.take span.2).drop span.1 := by decide +kernel
  exact ⟨_, _, hscan, hend, hitems, hlf, Document.scan_withReturns hscan hend hitems hlf⟩

/-- A line feed between two elements may get no return. -/
theorem Document.scan_return_separator :
    let source := "import (\"a\"\n\"b\")".toUTF8.data.toList
    let spans := [(0, 6), (7, 8), (8, 11), (12, 15), (15, 16), (16, 16)]
    ∃ items after items' after',
      ({ name := "a", base := 1, size := 16 } : Document).scan source {} = .ok (items, after) ∧
      0x0D ∉ source ∧ items.getLast?.map (·.kind) = some .eof ∧
      List.Forall₂ (fun item span => item.Spans 1 source span.1 span.2) items spans ∧
      (∀ span ∈ spans, 0x0A ∉ (source.take span.2).drop span.1) ∧
      ({ name := "a", base := 1, size := 17 } : Document).scan (Utf8.withReturns source) {} =
        .ok (items', after') ∧
      items'.map Item.face ≠ items.map Item.face := by
  intro source spans
  have hspans : (Trace.ofSource {} source).spans = spans := by decide +kernel
  obtain ⟨hitems, -⟩ := Trace.items_spans {} source 1
  rw [hspans] at hitems
  refine ⟨_, _, _, _, if_pos (by decide +kernel), ?_, ?_, hitems, ?_, if_pos (by decide +kernel), ?_⟩
  · decide +kernel
  · decide +kernel
  · decide +kernel
  · decide +kernel

end SchemaScan
