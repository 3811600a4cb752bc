import SchemaScan.Proofs.Scan.Backups

/-! # The places of a head

A head is in its place whatever a scan does with it, and every step back that the scan makes undoes the last step.
Nothing is pending where a routine of the top level begins. So a scan that comes to the end of its source there has
taken all of it, and does not complain.
-/
namespace SchemaScan

/-! ## The script of a scan -/

namespace History.Leads

variable {input : Input} {h k l : Head} {earlier later : History}

theorem append (he : Leads input h earlier k) (hl : Leads input k later l) : Leads input h (earlier ++ later) l := by
  induction he with
  | refl => exact hl
  | act ha _ ih => exact .act ha (ih hl)

end History.Leads

/-- The acts of a script lead from where it begins to where it ends. -/
theorem Script.leads {α : Type} {s : Script α} {input : Input} {h k : Head} {r : Except Stop α}
    (hrun : s.run input h = some (r, k)) : History.Leads input h (s.history input h) k := by
  induction s generalizing h k with
  | pure a =>
    cases hrun
    exact .refl h
  | stop e =>
    cases hrun
    exact .refl h
  | giveUp => cases hrun
  | read =>
    cases hrun
    exact .refl h
  | get =>
    cases hrun
    exact .refl h
  | act a => exact .act hrun (.refl k)
  | bind s f ihs ihf =>
    rw [run, Scanner.bind_apply] at hrun
    rw [history]
    split at hrun
    · cases hrun
    · rename_i a g hg
      rw [hg]
      exact (ihs hg).append (ihf a hrun)
    · rename_i e g hg
      cases hrun
      rw [hg]
      exact (ihs hg).append (.refl _)

/-- The script of a scan, put together from those of its routines. -/
noncomputable def Script.start : Script Unit := Scanner.keeps_start.orders.script

theorem Script.run_start : Script.start.run = Scanner.start := Scanner.keeps_start.orders.run_script

theorem Head.inPlace_initial (source : List UInt8) (room : Option Nat) :
    ({ Head.initial with room } : Head).InPlace source := ⟨Nat.le_refl 0, Nat.zero_le _, rfl⟩

/-- Whatever the receiver takes, the history of a scan is orderly. -/
theorem Script.orderly_start (input : Input) (room : Option Nat) :
    History.Orderly input (Script.start.history input { Head.initial with room }) :=
  Scanner.keeps_start.orders.orderly History.orderly_nil (Head.inPlace_initial _ room) trivial

/-! ## Where the routines of the top level begin -/

namespace Scanner

variable {α : Type} {m : Scanner α} {input : Input} {expected : List Item} {n : Nat} {p q : Phase} {h h' : Head}
variable {room : Option Nat}

/-- With an input and a receiver, the routine of a phase begins where the head stands. -/
inductive Begins (input : Input) (room : Option Nat) : Phase → Head → Prop
  | first {h : Head} (hfirst : dropByteOrderMark input { Head.initial with room } = some (.ok (), h)) :
    Begins input room .document h
  | after {p q : Phase} {h h' : Head} (hp : Begins input room p h)
    (hphase : phase p input h = some (.ok (some q), h')) : Begins input room q h'

/-- Where a phase is entered nothing is pending. -/
theorem Enters.start (he : Enters input expected n p h) : h.start = h.pos ∧ h.room = none := by
  cases p with
  | definition =>
    obtain ⟨found, c, w, s, rfl, -⟩ := he
    exact ⟨rfl, rfl⟩
  | members =>
    obtain ⟨found, c, w, rfl, -⟩ := he
    exact ⟨rfl, rfl⟩
  | _ =>
    obtain ⟨found, c, w, rfl, -⟩ := he
    exact ⟨rfl, rfl⟩

/-- The receiver still takes the next item. -/
def HasRoom (room : Option Nat) (h : Head) : Prop := ∀ k, room = some k → h.found.length ≤ k

/-- A scanner whose receiver takes all that it finds does what it does where everything is taken. -/
theorem Obeys.of_ok [hm : Obeys m] {r : Except Stop α} {g : Head} (hroom : h.room = none) (hr : HasRoom room h)
    (hall : m input h = some (r, g)) {a : α} (hrun : m input { h with room } = some (.ok a, h')) :
    r = .ok a ∧ h' = { g with room } ∧ HasRoom room g := by
  cases room with
  | none =>
    rw [show { h with room := none } = h by rw [← hroom], hall] at hrun
    cases hrun
    exact ⟨rfl, by rw [← (hm.grows hroom hall).1], fun k hk => nomatch hk⟩
  | some k =>
    rcases Nat.lt_or_ge k g.found.length with hlt | hle
    · obtain ⟨g', hrefused, -⟩ := hm.stops hroom hall (hr k rfl) hlt
      rw [Head.refusing, hrun] at hrefused
      cases hrefused
    · have hsame := hm.agrees hroom hall hle
      rw [Head.refusing, hrun] at hsame
      cases hsame
      exact ⟨rfl, rfl, fun k' hk => by cases hk; exact hle⟩

theorem Ends.of_ok [Obeys m] {Q : α → Head → Prop} (hm : Ends input expected m h Q) (hroom : h.room = none)
    (hr : HasRoom room h) {a : α} (hrun : m input { h with room } = some (.ok a, h')) :
    ∃ g, h' = { g with room } ∧ HasRoom room g ∧ Q a g := by
  rw [Ends] at hm
  split at hm
  · exact hm.elim
  · rename_i b g hall
    obtain ⟨hb, rfl, hg⟩ := Obeys.of_ok hroom hr hall hrun
    cases hb
    exact ⟨g, rfl, hg, hm⟩
  · exact hm.elim
  · exact hm.elim
  · rename_i hall
    cases (Obeys.of_ok hroom hr hall hrun).1

/-- Whatever the receiver takes, a scan comes to an end. -/
theorem exists_start (hfits : input.source.length = input.doc.size)
    (henough : enoughRounds input.source ≤ input.rounds) (room : Option Nat) :
    ∃ r last, Scanner.start input { Head.initial with room } = some (r, last) := by
  have hends := ends_start hfits henough
  have hobeys : Obeys Scanner.start := inferInstance
  cases hall : Scanner.start input Head.initial with
  | none =>
    rw [Ends, hall] at hends
    exact hends.elim
  | some run =>
    obtain ⟨r, g⟩ := run
    cases room with
    | none => exact ⟨r, g, hall⟩
    | some k =>
      rcases Nat.lt_or_ge k g.found.length with hlt | hle
      · obtain ⟨g', hrefused, -⟩ := hobeys.stops rfl hall (Nat.zero_le _) hlt
        exact ⟨_, _, hrefused⟩
      · exact ⟨_, _, hobeys.agrees rfl hall hle⟩

/-- A phase begins where it is entered, whatever the receiver takes. -/
theorem Begins.enters (hfits : input.source.length = input.doc.size)
    (henough : enoughRounds input.source ≤ input.rounds) (hb : Begins input room p h) :
    ∃ g n, h = { g with room } ∧ HasRoom room g ∧ 2 * n + p.rank < input.rounds ∧
      Enters input ((Trace.ofSource input.mode input.source).items input.doc.base) n p g := by
  induction hb with
  | first hfirst =>
    obtain ⟨g, rfl, hroom, he⟩ := (ends_dropByteOrderMark hfits henough).of_ok rfl (fun _ _ => Nat.zero_le _) hfirst
    exact ⟨g, _, rfl, hroom, measure_initial_lt henough, he⟩
  | after _ hphase ih =>
    obtain ⟨g, n, rfl, hroom, hlt, he⟩ := ih
    obtain ⟨g', rfl, hroom', m, hm, he'⟩ := (ends_phase (by omega) he).of_ok he.start.2 hroom hphase
    exact ⟨g', m, rfl, hroom', by omega, he'⟩

end Scanner

/-! ## The complaint that is not made -/

theorem append_ne_of_front {front rest text : String} (h : front.toList.isPrefixOf text.toList = false) :
    front ++ rest ≠ text := by
  rintro rfl
  rw [String.toList_append, ← Bool.not_eq_true, List.isPrefixOf_iff_prefix] at h
  exact h (List.prefix_append ..)

/-- No fault complains that the source ends. -/
theorem Fault.message_ne (f : Fault) : f.message ≠ "unexpected eof" := by
  cases f with
  | malformedName use text => cases use <;> exact append_ne_of_front (by decide +kernel)
  | malformedString role text =>
    cases role with
    | importListPath => exact (by decide +kernel : (malformedString .importListPath "").message ≠ "unexpected eof")
    | _ => exact append_ne_of_front (by decide +kernel)
  | missingMark place found =>
    cases place with
    | declaredDirective => exact (by decide +kernel : (missingMark .declaredDirective none).message ≠ "unexpected eof")
    | directive => exact (by decide +kernel : (missingMark .directive none).message ≠ "unexpected eof")
    | member => exact (by decide +kernel : (missingMark .member none).message ≠ "unexpected eof")
    | argument => exact (by decide +kernel : (missingMark .argument none).message ≠ "unexpected eof")
    | directiveArgument => exact append_ne_of_front (by decide +kernel)
    | objectField => exact append_ne_of_front (by decide +kernel)
  | invalidDefinition => decide
  | missingImplements => decide
  | missingImport => decide
  | commentBeforeComma => decide
  | mixedSeparators => decide
  | _ => exact append_ne_of_front (by decide +kernel)

theorem Trace.text_ne {mode : Mode} {source : List UInt8} {base : Nat} {item : Item}
    (hi : item ∈ (ofSource mode source).items base) (hk : item.kind = .error) : item.text ≠ "unexpected eof" := by
  obtain ⟨c, d, hp, -⟩ := (State.initial source).trace_passage mode
  rcases List.mem_append.mp hi with hi | hi
  · obtain ⟨l, hl, rfl⟩ := List.mem_map.mp hi
    have := hp.nonterminal l hl
    rw [show l.kind = .error from hk] at this
    cases this
  · obtain rfl := List.mem_singleton.mp hi
    cases hterminal : (ofSource mode source).terminal with
    | eof start line =>
      rw [hterminal] at hk
      cases hk
    | fault f start line => exact f.message_ne

/-! ## Scans -/

/-- No item that a scan hands on complains that the source ends. -/
theorem Input.text_ne {input : Input} (hfits : input.source.length = input.doc.size)
    (henough : enoughRounds input.source ≤ input.rounds) (room : Option Nat) :
    ∃ items, input.offered room = some (.ok items) ∧
      ∀ item ∈ items, item.kind = .error → item.text ≠ "unexpected eof" := by
  obtain ⟨doc, source, mode, rounds⟩ := input
  cases room with
  | none => exact ⟨_, items_eq_trace hfits henough, fun item hi => Trace.text_ne hi⟩
  | some k => exact ⟨_, offered_eq_take hfits henough k, fun item hi => Trace.text_ne (List.mem_of_mem_take hi)⟩

/-- A scan, written down as a script, comes to an end whatever its source is and however many items its receiver takes.
The acts lead there from the beginning; wherever the head is on the way it is in its place, and each step back
undoes the step that was made last, unless that had hit the end of the source. Nothing is pending where a routine
of the top level begins, and no item complains that the source ends. -/
theorem Scanner.start_keeps_place {input : Input} (hfits : input.source.length = input.doc.size)
    (henough : enoughRounds input.source ≤ input.rounds) (room : Option Nat) :
    let first := { Head.initial with room }
    let history := Script.start.history input first
    (∃ r last, Script.start.run = start ∧ start input first = some (r, last) ∧ history.Leads input first last ∧
      history.Orderly input ∧ last.InPlace input.source) ∧
    (∀ p h, Begins input room p h → h.start = h.pos) ∧
    ∃ items, input.offered room = some (.ok items) ∧
      ∀ item ∈ items, item.kind = .error → item.text ≠ "unexpected eof" := by
  intro first history
  refine ⟨?_, ?_, Input.text_ne hfits henough room⟩
  · obtain ⟨r, last, hrun⟩ := exists_start hfits henough room
    have hleads : History.Leads input first history last :=
      Script.leads (s := Script.start) (by rw [Script.run_start]; exact hrun)
    refine ⟨r, last, Script.run_start, hrun, hleads, Script.orderly_start input room, ?_⟩
    exact (keeps_start.orders.ends History.orderly_nil (Head.inPlace_initial _ room) trivial hrun).1
  · intro p h hb
    obtain ⟨g, n, rfl, -, -, he⟩ := hb.enters hfits henough
    exact he.start.1

/-- The acts of a scan of a line that holds a comment. -/
example : (Script.start.history ⟨{ name := "a", base := 1, size := 2 }, [0x23, 0x0A], ⟨true⟩, 4⟩ .initial).map (·.2) =
    [.next, .backup, .next, .next, .backup, .emit .comment, .next, .next, .backup, .ignore, .next, .emit .eof] := by
  decide +kernel

/-- Both the comment and the source end where the directives of the scalar do. -/
theorem Scanner.start_keeps_place_comment :
    let source := "scalar A @b #c".toUTF8.data.toList
    let input : Input := ⟨{ name := "a", base := 1, size := 14 }, source, {}, enoughRounds source⟩
    let first := { Head.initial with room := some 3 }
    let history := Script.start.history input first
    input.source.length = input.doc.size ∧ enoughRounds input.source ≤ input.rounds ∧
      (∃ r last, Script.start.run = start ∧ start input first = some (r, last) ∧ history.Leads input first last ∧
        history.Orderly input ∧ last.InPlace input.source) ∧
      (∀ p h, Begins input (some 3) p h → h.start = h.pos) ∧
      ∃ items, input.offered (some 3) = some (.ok items) ∧
        ∀ item ∈ items, item.kind = .error → item.text ≠ "unexpected eof" := by
  intro source input first history
  have hfits : input.source.length = input.doc.size := by decide +kernel
  exact ⟨hfits, Nat.le_refl _, start_keeps_place hfits (Nat.le_refl _) (some 3)⟩

end SchemaScan
