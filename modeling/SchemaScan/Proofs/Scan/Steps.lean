import SchemaScan.Proofs.Scan.Crossings
import SchemaScan.Scan.Step

/-! # What a step does

All that a step of a scan can do: it leaves out layout, a separator or a comment, takes tokens by means of
the recognisers, and puts other goals in the place of the topmost one; or it ends the scan. What is true of
every step is proved of these forms, without another look at how a step decides.
-/
namespace SchemaScan

/-! ## Tokens -/

/-- A token of the kind takes these runes from the front of what is left. -/
inductive Takes (mode : Mode) (rest : List Rune) : Kind → List Rune → Prop
  | mark (m : Mark) (h : rest.head?.map Rune.char = some m.char) : Takes mode rest (.mark m) (rest.take 1)
  | name (h : (NameSegment.read rest).value = true) :
    Takes mode rest (Kind.ofName (Rune.text (NameSegment.read rest).taken)) (NameSegment.read rest).taken
  | string (role : StringRole) (h : (StringLiteral.read rest).value = true) :
    Takes mode rest role.kind (StringLiteral.read rest).taken
  | number {kind : Kind} (h : (NumberLiteral.read rest).value = some kind) :
    Takes mode rest kind (NumberLiteral.read rest).taken
  | comment (hm : mode.comments = true) (h : rest.head?.map Rune.char = some '#') :
    Takes mode rest .comment (Rune.run (!isLineEnd ·) rest)

/-- The tokens are taken one behind the other. -/
inductive TakesAll (mode : Mode) : Cursor → List Lexeme → Cursor → Prop
  | nil (c : Cursor) : TakesAll mode c [] c
  | cons {c d e : Cursor} {kind : Kind} {taken : List Rune} {found : List Lexeme}
    (htakes : Takes mode c.rest kind taken) (hx : c.Proceeds taken d) (h : TakesAll mode d found e) :
    TakesAll mode c (⟨kind, c.offset, taken, d.line⟩ :: found) e

/-! ## What is left out -/

/-- The runes of a comment, without the end of its line. -/
def Rune.IsComment (rs : List Rune) : Prop :=
  rs.head?.map Rune.char = some '#' ∧ ∀ r ∈ rs, isLineEnd r.char = false

theorem Cursor.isComment_run {c : Cursor} (h : c.peek = some '#') :
    Rune.IsComment (Rune.run (!isLineEnd ·) c.rest) := by
  constructor
  · obtain ⟨offset, line, seen, _ | ⟨r, rest⟩⟩ := c
    · cases h
    · have hr : r.char = '#' := by simpa [peek] using h
      have hline : isLineEnd '#' = false := by decide
      simp [Rune.run, hr, hline]
  · intro r hr
    simpa using Rune.of_mem_run hr

/-- The scan stands behind an element of a series that ends with a closing mark. -/
def State.isBehindElement (s : State) : Bool :=
  match s.goals with
  | .separator series _ :: _ => !series.endsAtLine
  | _ => false

/-- The separator that a series has been found to use is one of its own. -/
def Goal.Keeps : Goal → Prop
  | elements s fixed | separator s fixed => ∀ x, fixed = some x → x ∈ s.separators
  | _ => True

/-- Every series that has not ended yet has been found to use one of its own separators. -/
def Goal.AllKeep (goals : List Goal) : Prop := ∀ g ∈ goals, g.Keeps

/-- What the step from a state may leave out. -/
inductive State.Drops (mode : Mode) (s : State) : List Rune → Prop
  | layout {rs : List Rune} (h : ∀ r ∈ rs, isSpace r.char = true) : Drops mode s rs
  | separator {r : Rune} (h : r.char ∈ [',', '&', '|']) : Drops mode s [r]
  | unasked {layout comment : List Rune} (h : ∀ r ∈ layout, isSpace r.char = true)
      (hc : Rune.IsComment comment) (hm : mode.comments = false) : Drops mode s (layout ++ comment)
  | behindElement {comment : List Rune} (hc : Rune.IsComment comment)
      (hb : s.isBehindElement = true) : Drops mode s comment

namespace State.Drops

variable {mode : Mode} {s : State}

theorem nothing : s.Drops mode [] := layout (List.forall_mem_nil _)

theorem run {p : Char → Bool} (hp : ∀ x, p x = true → isSpace x = true) (c : Cursor) :
    s.Drops mode (Rune.run p c.rest) :=
  layout fun _ hr => hp _ (Rune.of_mem_run hr)

theorem comment {c : Cursor} (h : c.peek = some '#') (hm : mode.comments = false) :
    s.Drops mode (Rune.run (!isLineEnd ·) c.rest) := by
  have hdrops : s.Drops mode ([] ++ Rune.run (!isLineEnd ·) c.rest) :=
    unasked (List.forall_mem_nil _) (Cursor.isComment_run h) hm
  rwa [List.nil_append] at hdrops

end State.Drops

theorem isSpace_of_isBlank {c : Char} (h : isBlank c = true) : isSpace c = true := by
  rw [isSpace_eq, h, Bool.true_or]

theorem Series.mem_separators {s : Series} {x : Char} (h : x ∈ s.separators) :
    isSpace x = true ∨ x ∈ [',', '&', '|'] := by
  have hall : ∀ y ∈ s.separators, isSpace y = true ∨ y ∈ [',', '&', '|'] := by
    cases s <;> simp [separators, isSpace]
  exact hall x h

/-- A separator is left out where it stands. -/
theorem State.Drops.of_separator {mode : Mode} {s : State} {series : Series} {c : Cursor} {x : Char}
    (hp : c.peek = some x) (hx : x ∈ series.separators) : s.Drops mode (c.rest.take 1) := by
  obtain ⟨offset, line, seen, _ | ⟨r, rest⟩⟩ := c
  · cases hp
  · obtain rfl : r.char = x := by simpa [Cursor.peek] using hp
    rcases Series.mem_separators hx with h | h
    · exact layout (List.forall_mem_singleton.mpr h)
    · exact separator h

/-- The step may leave out what lies in front of the cursor, as long as the goals keep to the separators of
their series. -/
structure State.Skips (mode : Mode) (s : State) (c : Cursor) : Prop where
  seen : s.cursor.seen ≤ c.seen
  drops : ∃ dropped, s.cursor.Crosses dropped c ∧ (Goal.AllKeep s.goals → s.Drops mode dropped)

namespace State

variable {mode : Mode} {s : State}

theorem skips_self : s.Skips mode s.cursor := ⟨Nat.le_refl _, [], .refl _, fun _ => .nothing⟩

theorem Skips.sights {c d : Cursor} (h : s.Skips mode c) (hd : c.Sights d) : s.cursor.Sights d := by
  obtain ⟨hseen, dropped, hx, -⟩ := h
  exact ⟨Nat.le_trans hx.offset_le hd.offset, Nat.le_trans hseen hd.seen⟩

theorem skips_layout {p : Char → Bool} (hp : ∀ x, p x = true → isSpace x = true) :
    s.Skips mode (s.cursor.skip p) :=
  ⟨(s.cursor.sights_skip p).seen, _, .skip p _, fun _ => .run hp _⟩

theorem skips_separator {series : Series} {x : Char} (hp : s.cursor.peek = some x)
    (hx : Goal.AllKeep s.goals → x ∈ series.separators) : s.Skips mode s.cursor.next :=
  ⟨s.cursor.sights_next.seen, _, .next _, fun hkeep => .of_separator hp (hx hkeep)⟩

theorem skips_comment (hp : s.cursor.peek = some '#')
    (h : mode.comments = false ∨ s.isBehindElement = true) :
    s.Skips mode (s.cursor.skip (!isLineEnd ·)) := by
  refine ⟨(s.cursor.sights_skip _).seen, _, .skip _ _, fun _ => ?_⟩
  rcases h with hm | hb
  · exact .comment hp hm
  · exact .behindElement (Cursor.isComment_run hp) hb

/-- A comment that is not asked for may stand behind layout. -/
theorem skips_layout_comment (hp : (s.cursor.skip isSpace).peek = some '#')
    (hm : mode.comments = false) :
    s.Skips mode ((s.cursor.skip isSpace).skip (!isLineEnd ·)) := by
  refine ⟨((s.cursor.sights_skip _).trans (Cursor.sights_skip _ _)).seen, _,
    (Cursor.Crosses.skip isSpace _).trans (.skip _ _), fun _ => ?_⟩
  exact .unasked (fun _ hr => Rune.of_mem_run hr) (Cursor.isComment_run hp) hm

end State

/-! ## Goals -/

namespace Goal

/-- The goal stands for the rest of a series. -/
inductive InSeries (s : Series) : Goal → Prop
  | elements (fixed : Option Char) : InSeries s (.elements s fixed)
  | separator (fixed : Option Char) : InSeries s (.separator s fixed)

/-- The goal is met by tokens of these kinds, but for the goals that come in its place. Comments may be
found besides. -/
inductive Yields : Goal → List Kind → List Goal → Prop
  | blanks : Yields .blanks [] []
  | space : Yields .space [] []
  | qualified (role : NameRole) (text : String) :
    Yields (.name role) [Kind.ofName text, .mark .period] [.name role]
  | name {role : NameRole} {text : String} (h : role.accepts (Kind.ofName text) = true) :
    Yields (.name role) [Kind.ofName text] (role.following (Kind.ofName text))
  /-- The word `on` is not reported, as no definition starts with it. -/
  | lost : Yields (.name .definition) [] (definitionRest .on)
  | string (role : StringRole) : Yields (.string role) [role.kind] []
  | number {rs : List Rune} {kind : Kind} (h : (NumberLiteral.read rs).value = some kind) :
    Yields .number [kind] []
  | closes {g : Goal} {s : Series} {m : Mark} (hg : g.InSeries s) (h : s.ending = .closing m) :
    Yields g [.mark m] []
  | ends {g : Goal} {s : Series} (hg : g.InSeries s) (h : s.endsAtLine = true) : Yields g [] []
  | again (s : Series) (fixed : Option Char) : Yields (.elements s fixed) [] [.elements s fixed]
  | element (s : Series) (fixed : Option Char) :
    Yields (.elements s fixed) [] (Goal.element s ++ [.separator s fixed])
  | behind (s : Series) (fixed : Option Char) : Yields (.separator s fixed) [] [.separator s fixed]
  | separated (s : Series) (fixed : Option Char) : Yields (.separator s fixed) [] [.elements s fixed]
  | fixes {s : Series} {x : Char} (h : x ∈ s.separators) (fixed : Option Char) :
    Yields (.separator s fixed) [] [.elements s (some x)]
  | expand {k : Construct} {next : Option Char} {inner : List Goal} (h : k.choose next = .expand inner) :
    Yields (.construct k) [] inner
  | take {k : Construct} {next : Option Char} {m : Mark} {inner : List Goal}
    (h : k.choose next = .take m inner) : Yields (.construct k) [.mark m] inner

/-- What becomes of the stack of goals when tokens of these kinds are found. -/
inductive Finds : List Goal → List Kind → List Goal → Prop
  | top : Finds [] [] []
  | string : Finds [] [StringRole.value.kind] []
  | definition {found : List Kind} {inner : List Goal} (h : Yields (.name .definition) found inner) :
    Finds [] found inner
  | inside {g : Goal} {found : List Kind} {inner goals : List Goal} (h : g.Yields found inner) :
    Finds (g :: goals) found (inner ++ goals)
  | comment {before after : List Goal} (h : Finds before [] after) : Finds before [.comment] after

end Goal

/-! ## Steps -/

/-- The forms that the step from a state may have. -/
inductive State.Makes (mode : Mode) (s : State) : Step → Prop
  /-- All of the source has been scanned. -/
  | ends (hgoals : s.goals = []) (hpeek : s.cursor.peek = none) :
    Makes mode s (.halt (.eof s.cursor.offset s.cursor.line) s.cursor.look)
  | fails (f : Fault) {taken : List Rune} {after : Cursor} (hx : s.cursor.Proceeds taken after) :
    Makes mode s (Step.fail f s.cursor after)
  | goes {c d : Cursor} {found : List Lexeme} {goals : List Goal} (hskips : s.Skips mode c)
    (hsights : s.cursor.Sights d) (htakes : TakesAll mode c found d)
    (hfinds : Goal.Finds s.goals (found.map (·.kind)) goals) : Makes mode s (.next found ⟨d, goals⟩)
  /-- The word `on` has been taken where a definition should start. -/
  | loses {taken : List Rune} {d : Cursor} {goals : List Goal} (hx : s.cursor.Proceeds taken d)
    (hfinds : Goal.Finds s.goals [] (Goal.definitionRest .on ++ goals)) :
    Makes mode s (.next [] ⟨d, Goal.definitionRest .on ++ goals⟩)

namespace State

open Step

variable {mode : Mode} {s : State} {c d : Cursor} {goals : List Goal}

theorem makes_gap (hskips : s.Skips mode c) (hsights : s.cursor.Sights c)
    (hfinds : Goal.Finds s.goals [] goals) : s.Makes mode (.next [] ⟨c, goals⟩) :=
  .goes hskips hsights (.nil c) hfinds

theorem makes_token {kind : Kind} {taken : List Rune} (hskips : s.Skips mode c)
    (htakes : Takes mode c.rest kind taken) (hx : c.Proceeds taken d)
    (hfinds : Goal.Finds s.goals [kind] goals) : s.Makes mode (token kind taken c d goals) :=
  .goes hskips (hskips.sights hx.sights) (.cons htakes hx (.nil d)) hfinds

theorem makes_mark {m : Mark} (hskips : s.Skips mode c) (hp : c.peek = some m.char)
    (hfinds : Goal.Finds s.goals [.mark m] goals) : s.Makes mode (mark m c goals) :=
  makes_token hskips (.mark m hp) c.proceeds_next hfinds

theorem makes_name {role : NameRole} (hfinds : ∀ {found inner}, Goal.Yields (.name role) found inner →
    Goal.Finds s.goals found (inner ++ goals)) : s.Makes mode (name role s.cursor goals) := by
  have hx := Cursor.proceeds_read (NameSegment.read_taken_append_rest s.cursor.rest)
  simp only [name]
  split
  · exact .fails _ hx
  · rename_i hvalue
    have htakes : Takes mode s.cursor.rest (Kind.ofName (Rune.text (NameSegment.read s.cursor.rest).taken))
        (NameSegment.read s.cursor.rest).taken := .name (by simpa using hvalue)
    split
    · rename_i hperiod
      have hnext := Cursor.proceeds_next
        (s.cursor.advance (NameSegment.read s.cursor.rest).taken (NameSegment.read s.cursor.rest).rest).look
      exact .goes skips_self (hx.sights.trans hnext.sights)
        (.cons htakes hx (.cons (.mark .period hperiod) hnext (.nil _))) (hfinds (.qualified role _))
    · split
      · exact .fails _ hx
      · rename_i haccepts
        split
        · exact makes_token skips_self htakes hx (hfinds (.name (by simpa using haccepts)))
        · rename_i hreports
          obtain ⟨rfl, hon⟩ : role = .definition ∧
              Kind.ofName (Rune.text (NameSegment.read s.cursor.rest).taken) = .keyword .on := by
            simpa [NameRole.reports] using hreports
          rw [hon]
          exact .loses hx (hfinds .lost)

theorem makes_string {role : StringRole} (hfinds : Goal.Finds s.goals [role.kind] goals) :
    s.Makes mode (string role s.cursor goals) := by
  have hx := Cursor.proceeds_read (StringLiteral.read_taken_append_rest s.cursor.rest)
  simp only [string]
  split
  · rename_i hvalue
    exact makes_token skips_self (.string role hvalue) hx hfinds
  · exact .fails _ hx

theorem makes_number (hfinds : ∀ {found}, Goal.Yields .number found [] → Goal.Finds s.goals found goals) :
    s.Makes mode (number s.cursor goals) := by
  have hx := Cursor.proceeds_read (NumberLiteral.read_taken_append_rest s.cursor.rest)
  simp only [number]
  split
  · rename_i hvalue
    exact makes_token skips_self (.number hvalue) hx (hfinds (.number hvalue))
  · exact .fails _ hx

theorem makes_comment (hskips : s.Skips mode c) (hp : c.peek = some '#')
    (hunasked : mode.comments = false → s.Skips mode (c.skip (!isLineEnd ·)))
    (hfinds : Goal.Finds s.goals [] goals) : s.Makes mode (comment mode c goals) := by
  simp only [comment]
  split
  · rename_i hm
    exact makes_token hskips (.comment hm hp) (c.proceeds_skip _) hfinds.comment
  · rename_i hm
    exact makes_gap (hunasked (by simpa using hm)) (hskips.sights (c.sights_skip _)) hfinds

theorem makes_leave {series : Series} (hskips : s.Skips mode c) (hsights : s.cursor.Sights c)
    (hend : c.peek.any series.isEnd = true)
    (hcloses : ∀ {m}, series.ending = .closing m → Goal.Finds s.goals [.mark m] goals)
    (hends : series.endsAtLine = true → Goal.Finds s.goals [] goals) :
    s.Makes mode (leave series c goals) := by
  obtain ⟨r, hpeek, hr⟩ := (Option.any_eq_true _ _).mp hend
  simp only [leave]
  split
  · rename_i m hm
    have hchar : r = m.char := by simpa [Series.isEnd, hm] using hr
    exact makes_mark hskips (hchar ▸ hpeek) (hcloses hm)
  · rename_i hline
    exact makes_gap hskips hsights (hends (by simp [Series.endsAtLine, hline]))

/-- A step may first look at the next rune. -/
theorem Makes.of_look {stack : List Goal} {step : Step} (h : Makes mode ⟨c.look, stack⟩ step) :
    Makes mode ⟨c, stack⟩ step := by
  cases h with
  | ends hgoals hpeek =>
    rw [Cursor.look_look]
    exact .ends hgoals hpeek
  | fails f hx => exact .fails f hx.of_look
  | goes hskips hsights htakes hfinds =>
    obtain ⟨hseen, dropped, hx, hdrops⟩ := hskips
    refine .goes ⟨Nat.le_trans c.sights_look.seen hseen, dropped, hx.of_look, fun hkeep => ?_⟩
      hsights.of_look htakes hfinds
    cases hdrops hkeep with
    | layout h => exact .layout h
    | separator h => exact .separator h
    | unasked h hc hm => exact .unasked h hc hm
    | behindElement hc hb => exact .behindElement hc hb
  | loses hx hfinds => exact .loses hx.of_look hfinds

theorem makes_elements {series : Series} {fixed : Option Char} :
    Makes mode ⟨c, .elements series fixed :: goals⟩ (elements mode series fixed c goals) := by
  let s : State := ⟨c, .elements series fixed :: goals⟩
  have hskips : s.Skips mode (c.skip isSpace) := skips_layout fun _ => id
  have hsights : s.cursor.Sights (c.skip isSpace) := c.sights_skip _
  have hg : (Goal.elements series fixed).InSeries series := .elements fixed
  simp only [elements]
  split
  · rename_i hend
    exact makes_leave hskips hsights hend (fun hm => .inside (.closes hg hm))
      fun hline => .inside (.ends hg hline)
  · split
    · rename_i hpeek
      refine makes_comment hskips hpeek (fun hm => skips_layout_comment hpeek hm) ?_
      split
      · rename_i hline
        exact .inside (.ends hg hline)
      · exact .inside (.again series fixed)
    · have hfinds : Goal.Finds s.goals [] ((Goal.element series ++ [.separator series fixed]) ++ goals) :=
        .inside (.element series fixed)
      rw [List.append_assoc] at hfinds
      exact makes_gap hskips hsights hfinds

theorem makes_separator {series : Series} {fixed : Option Char} :
    Makes mode ⟨c, .separator series fixed :: goals⟩ (separator mode series fixed c goals) := by
  refine Makes.of_look ?_
  let s : State := ⟨c.look, .separator series fixed :: goals⟩
  have hself : s.Skips mode c.look := skips_self
  have hblank : s.Skips mode (c.look.skip isBlank) := skips_layout fun _ => isSpace_of_isBlank
  have hlook : c.look.Sights c.look := c.look_sights_look
  have hfail : s.cursor.Proceeds [] c.look := ⟨.refl _, hlook⟩
  have hg : (Goal.separator series fixed).InSeries series := .separator fixed
  have hseparated : Goal.Finds s.goals [] (.elements series fixed :: goals) :=
    .inside (.separated series fixed)
  simp only [separator]
  split
  · split
    · rename_i hline
      exact makes_gap hself hlook (.inside (.ends hg hline))
    · exact .fails _ hfail
  · rename_i r hpeek
    split
    · rename_i hfixed
      have hmem (hkeep : Goal.AllKeep s.goals) : r ∈ series.separators :=
        hkeep _ List.mem_cons_self r hfixed
      exact makes_gap (skips_separator hpeek hmem) c.look.sights_next hseparated
    · split
      · split
        · exact makes_gap hblank (c.look.sights_skip _) (.inside (.behind series fixed))
        · rename_i hblanks
          split
          · have hline : series.endsAtLine = true := Series.endsAtLine_of_blanks (by simpa using hblanks)
            exact makes_gap hblank (c.look.sights_skip _) (.inside (.ends hg hline))
          · exact makes_gap hblank (c.look.sights_skip _) hseparated
      · split
        · rename_i hr
          subst hr
          split
          · exact .fails _ c.look.proceeds_next
          · split
            · exact makes_comment hself hpeek (fun hm => skips_comment hpeek (.inl hm))
                (.inside (.behind series fixed))
            · rename_i hline
              have hbehind : s.isBehindElement = true := by simpa [s, isBehindElement] using hline
              exact makes_gap (skips_comment hpeek (.inr hbehind)) (c.look.sights_skip _) hseparated
        · split
          · rename_i hend
            exact makes_leave hself hlook (by rw [hpeek]; exact hend)
              (fun hm => .inside (.closes hg hm)) fun hline => .inside (.ends hg hline)
          · split
            · rename_i hx
              have hmem := List.contains_iff_mem.mp hx
              split
              · exact .fails _ hfail
              · exact makes_gap (skips_separator hpeek fun _ => hmem) c.look.sights_next
                  (.inside (.fixes hmem fixed))
            · exact .fails _ c.look.proceeds_next

theorem makes_construct {k : Construct} :
    Makes mode ⟨c, .construct k :: goals⟩ (construct k c goals) := by
  refine Makes.of_look ?_
  have hself : State.Skips mode ⟨c.look, .construct k :: goals⟩ c.look := skips_self
  simp only [construct]
  split
  · rename_i hk
    exact makes_gap hself c.look_sights_look (.inside (.expand hk))
  · rename_i hk
    exact makes_mark hself (Construct.next_of_take hk) (.inside (.take hk))
  · exact .fails _ ⟨.refl _, c.look_sights_look⟩

theorem makes_topLevel : Makes mode ⟨c, []⟩ (topLevel mode c) := by
  refine Makes.of_look ?_
  have hself : State.Skips mode ⟨c.look, []⟩ c.look := skips_self
  simp only [topLevel]
  split
  · rename_i hpeek
    have hends : Makes mode ⟨c.look, []⟩ _ := .ends rfl hpeek
    rwa [c.look_look] at hends
  · rename_i r hpeek
    split
    · exact makes_gap (skips_layout fun _ => id) (c.look.sights_skip _) .top
    · split
      · rename_i hr
        subst hr
        exact makes_comment hself hpeek (fun hm => skips_comment hpeek (.inl hm)) .top
      · split
        · exact makes_string .string
        · split
          · refine makes_name fun {found inner} h => ?_
            rw [List.append_nil]
            exact .definition h
          · exact .fails _ c.look.proceeds_next

/-- Every step has one of the forms. -/
theorem step_makes (mode : Mode) (s : State) : s.Makes mode (s.step mode) := by
  obtain ⟨c, goals⟩ := s
  cases goals with
  | nil => exact makes_topLevel
  | cons g goals =>
    cases g with
    | blanks =>
      exact makes_gap (skips_layout fun _ => isSpace_of_isBlank) (c.sights_skip _) (.inside .blanks)
    | space => exact makes_gap (skips_layout fun _ => id) (c.sights_skip _) (.inside .space)
    | name role => exact makes_name .inside
    | string role => exact makes_string (.inside (.string role))
    | number => exact makes_number .inside
    | elements series fixed => exact makes_elements
    | separator series fixed => exact makes_separator
    | construct k => exact makes_construct

end State

end SchemaScan
