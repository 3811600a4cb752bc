import SchemaScan.Proofs.Scan.Steps
import SchemaScan.Scan.Trace

/-! # Passages

A scan moves its cursor forward only. A passage from one cursor to another says which tokens lie
between them: each starts where its cursor stood, and the runes between two tokens are dropped.
Every step is a passage, and so is every run.
-/
namespace SchemaScan

/-- The token takes the runes between the two cursors. -/
structure Lexeme.Between (l : Lexeme) (c d : Cursor) : Prop where
  crosses : c.Crosses l.runes d
  start : l.start = c.offset
  line : l.line = d.line
  nonempty : l.runes ≠ []
  kind : l.kind.isTerminal = false

/-- The tokens between two cursors, in order. -/
inductive Passage : Cursor → List Lexeme → Cursor → Prop
  | gap {c d : Cursor} {dropped : List Rune} (h : c.Crosses dropped d) : Passage c [] d
  | token {c d e f : Cursor} {dropped : List Rune} {l : Lexeme} {found : List Lexeme}
      (h : c.Crosses dropped d) (hl : l.Between d e) (hf : Passage e found f) :
      Passage c (l :: found) f

namespace Passage

theorem refl (c : Cursor) : Passage c [] c := gap (.refl c)

theorem of_crosses {c d e : Cursor} {dropped : List Rune} {found : List Lexeme}
    (h : c.Crosses dropped d) (hp : Passage d found e) : Passage c found e := by
  cases hp with
  | gap h' => exact gap (h.trans h')
  | token h' hl hf => exact token (h.trans h') hl hf

theorem append {c d e : Cursor} {a b : List Lexeme} (h : Passage c a d) (h' : Passage d b e) :
    Passage c (a ++ b) e := by
  induction h with
  | gap hc => exact of_crosses hc h'
  | token hc hl _ ih => exact token hc hl (ih h')

/-- A passage crosses all that lies between its ends. -/
theorem crosses {c d : Cursor} {found : List Lexeme} (h : Passage c found d) :
    ∃ taken, c.Crosses taken d := by
  induction h with
  | gap hc => exact ⟨_, hc⟩
  | token hc hl _ ih =>
    obtain ⟨taken, ht⟩ := ih
    exact ⟨_, (hc.trans hl.crosses).trans ht⟩

end Passage

/-- What a scan says about its end, when it stopped at `c` and had taken the source up to `d`. -/
def Terminal.Closes (c d : Cursor) : Terminal → Prop
  | .eof start line => c.rest = [] ∧ start = c.offset ∧ line = c.line
  | .fault _ start line => start = c.offset ∧ line = d.line

/-! ## Steps -/

/-- A number takes at least a digit. -/
theorem NumberLiteral.taken_ne_nil {rs : List Rune} {kind : Kind} (h : (read rs).value = some kind) :
    (read rs).taken ≠ [] := by
  simp only [read] at h ⊢
  split at h
  · cases h
  · rename_i hdigits
    rw [if_neg hdigits]
    simp [hdigits]

namespace Takes

variable {mode : Mode} {rest : List Rune} {kind : Kind} {taken : List Rune}

theorem ne_nil (h : Takes mode rest kind taken) : taken ≠ [] := by
  have hshorter {taken left : List Rune} (happend : taken ++ left = rest)
      (hlt : left.length < rest.length) : taken ≠ [] := by
    rintro rfl
    rw [List.nil_append] at happend
    exact absurd hlt (happend ▸ Nat.lt_irrefl _)
  have hpeek {r : Char} (h : rest.head?.map Rune.char = some r) : (Cursor.start rest).peek = some r := h
  cases h with
  | mark m h => exact Cursor.take_ne_nil (hpeek h)
  | name h => exact hshorter (NameSegment.read_taken_append_rest _) (NameSegment.length_rest_lt h)
  | string role h => exact hshorter (StringLiteral.read_taken_append_rest _) (StringLiteral.length_rest_lt h)
  | number h => exact NumberLiteral.taken_ne_nil h
  | comment hm h => exact Cursor.run_ne_nil (hpeek h) (by decide)

theorem isTerminal_eq (h : Takes mode rest kind taken) : kind.isTerminal = false := by
  cases h with
  | mark | comment => rfl
  | name =>
    unfold Kind.ofName
    split <;> rfl
  | string role => cases role <;> rfl
  | number h => obtain rfl | rfl := NumberLiteral.kind_of_read h <;> rfl

end Takes

theorem TakesAll.passage {mode : Mode} {c d : Cursor} {found : List Lexeme}
    (h : TakesAll mode c found d) : Passage c found d := by
  induction h with
  | nil c => exact .refl c
  | cons htakes hx _ ih =>
    exact .token (.refl _) ⟨hx.crosses, rfl, rfl, htakes.ne_nil, htakes.isTerminal_eq⟩ ih

/-- The step goes on from the cursor, or ends the scan there. -/
def Step.From (c : Cursor) : Step → Prop
  | next found s => Passage c found s.cursor
  | halt terminal d => terminal.Closes c d ∧ ∃ taken, c.Crosses taken d

theorem State.Makes.from {mode : Mode} {s : State} {step : Step} (h : s.Makes mode step) :
    step.From s.cursor := by
  cases h with
  | ends _ hpeek => exact ⟨⟨Cursor.rest_eq_nil hpeek, rfl, rfl⟩, [], (Cursor.Crosses.refl _).look⟩
  | fails f hx => exact ⟨⟨rfl, rfl⟩, _, hx.crosses⟩
  | goes hskips _ htakes _ =>
    obtain ⟨-, dropped, hx, -⟩ := hskips
    exact Passage.of_crosses hx htakes.passage
  | loses hx _ => exact .gap hx.crosses

/-- Every step moves forward, and what it finds lies on the way. -/
theorem State.step_from (mode : Mode) (s : State) : (s.step mode).From s.cursor :=
  (s.step_makes mode).from

/-- A run passes over its tokens to the place where it ends. -/
theorem State.trace_passage (mode : Mode) (s : State) :
    ∃ c d, Passage s.cursor (s.trace mode).lexemes c ∧ (s.trace mode).terminal.Closes c d ∧
      ∃ taken, c.Crosses taken d := by
  fun_induction State.trace mode s with
  | case1 s terminal d h =>
    have hs := s.step_from mode
    rw [h] at hs
    exact ⟨s.cursor, d, .refl _, hs⟩
  | case2 s found t h rest ih =>
    have hs := s.step_from mode
    rw [h] at hs
    obtain ⟨c, d, hp, hc⟩ := ih
    exact ⟨c, d, Passage.append hs hp, hc⟩

theorem Passage.nonterminal {c d : Cursor} {found : List Lexeme} (h : Passage c found d) :
    ∀ l ∈ found, l.kind.isTerminal = false := by
  induction h with
  | gap _ => simp
  | token _ hl _ ih =>
    intro k hk
    rcases List.mem_cons.mp hk with rfl | hk
    · exact hl.kind
    · exact ih k hk

/-! ## The end of a run -/

/-- The list is not empty, and its last item is its only terminal one. -/
def Item.Closed (items : List Item) : Prop :=
  ∃ front last, items = front ++ [last] ∧ last.isTerminal = true ∧
    ∀ item ∈ front, item.isTerminal = false

/-- The items of a run end with the only one that is terminal. -/
theorem Trace.items_closed (mode : Mode) (source : List UInt8) (base : Nat) :
    Item.Closed ((Trace.ofSource mode source).items base) := by
  obtain ⟨c, d, hp, -⟩ := (State.initial source).trace_passage mode
  refine ⟨_, _, rfl, ?_, ?_⟩
  · cases (Trace.ofSource mode source).terminal <;> rfl
  · intro item hi
    obtain ⟨l, hl, rfl⟩ := List.mem_map.mp hi
    exact hp.nonterminal l hl

end SchemaScan
