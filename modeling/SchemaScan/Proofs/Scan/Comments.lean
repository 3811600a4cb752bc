import SchemaScan.Proofs.Scan.Phases

/-! # Comments

Whether comments are asked for changes nothing but that they are reported: every step leaves the same
state in both modes. So two scans of one source, one in each mode, differ in the comments among their
items and in nothing else.
-/
namespace SchemaScan

/-- Not a comment. -/
def Kind.isPlain (kind : Kind) : Bool := kind ≠ .comment

@[simp] theorem Kind.isPlain_mark (m : Mark) : (Kind.mark m).isPlain = true := rfl

theorem Kind.isPlain_ofName (name : String) : (Kind.ofName name).isPlain = true := by
  unfold ofName
  split <;> rfl

theorem StringRole.isPlain_kind (role : StringRole) : role.kind.isPlain = true := by
  cases role <;> rfl

theorem NumberLiteral.isPlain_of_read {rs : List Rune} {kind : Kind}
    (h : (read rs).value = some kind) : kind.isPlain = true := by
  rcases kind_of_read h with rfl | rfl <;> rfl

/-! ## Steps -/

namespace Step

/-- The step without the comment that it may have found. -/
def withoutComments : Step → Step
  | next found s => next (found.filter (·.kind.isPlain)) s
  | halt terminal c => halt terminal c

@[simp] theorem withoutComments_next_nil (s : State) :
    (next [] s).withoutComments = next [] s := rfl

@[simp] theorem withoutComments_fail (f : Fault) (c after : Cursor) :
    (fail f c after).withoutComments = fail f c after := rfl

theorem withoutComments_token {kind : Kind} (hk : kind.isPlain = true) (taken : List Rune)
    (c after : Cursor) (goals : List Goal) :
    (token kind taken c after goals).withoutComments = token kind taken c after goals := by
  simp [token, withoutComments, hk]

@[simp] theorem withoutComments_mark (m : Mark) (c : Cursor) (goals : List Goal) :
    (mark m c goals).withoutComments = mark m c goals := withoutComments_token rfl ..

theorem withoutComments_name (role : NameRole) (c : Cursor) (goals : List Goal) :
    (name role c goals).withoutComments = name role c goals := by
  have hk := Kind.isPlain_ofName (Rune.text (NameSegment.read c.rest).taken)
  simp only [name]
  split
  · rfl
  · split
    · simp [withoutComments, hk]
    · split
      · rfl
      · split
        · exact withoutComments_token hk ..
        · rfl

theorem withoutComments_string (role : StringRole) (c : Cursor) (goals : List Goal) :
    (string role c goals).withoutComments = string role c goals := by
  simp only [string]
  split
  · exact withoutComments_token role.isPlain_kind ..
  · rfl

theorem withoutComments_number (c : Cursor) (goals : List Goal) :
    (number c goals).withoutComments = number c goals := by
  simp only [number]
  split
  · rename_i kind hk
    exact withoutComments_token (NumberLiteral.isPlain_of_read hk) ..
  · rfl

/-- The one kind of step in which the modes differ. -/
theorem withoutComments_comment (mode : Mode) (c : Cursor) (goals : List Goal) :
    (comment mode c goals).withoutComments = comment {} c goals := by
  simp only [comment]
  split
  · rfl
  · rfl

theorem withoutComments_leave (s : Series) (c : Cursor) (goals : List Goal) :
    (leave s c goals).withoutComments = leave s c goals := by
  simp only [leave]
  split
  · exact withoutComments_mark ..
  · rfl

theorem withoutComments_elements (mode : Mode) (s : Series) (fixed : Option Char) (c : Cursor)
    (goals : List Goal) :
    (elements mode s fixed c goals).withoutComments = elements {} s fixed c goals := by
  simp only [elements]
  split
  · exact withoutComments_leave ..
  · split
    · exact withoutComments_comment ..
    · rfl

theorem withoutComments_separator (mode : Mode) (s : Series) (fixed : Option Char) (c : Cursor)
    (goals : List Goal) :
    (separator mode s fixed c goals).withoutComments = separator {} s fixed c goals := by
  simp only [separator]
  split
  · split
    · rfl
    · rfl
  · simp only [apply_ite withoutComments, withoutComments_next_nil, withoutComments_fail,
      withoutComments_comment, withoutComments_leave]

theorem withoutComments_construct (k : Construct) (c : Cursor) (goals : List Goal) :
    (construct k c goals).withoutComments = construct k c goals := by
  simp only [construct]
  split
  · rfl
  · exact withoutComments_mark ..
  · rfl

theorem withoutComments_topLevel (mode : Mode) (c : Cursor) :
    (topLevel mode c).withoutComments = topLevel {} c := by
  simp only [topLevel]
  split
  · rfl
  · simp only [apply_ite withoutComments, withoutComments_next_nil, withoutComments_fail,
      withoutComments_comment, withoutComments_string, withoutComments_name]

end Step

/-- A step in any mode is the step in the plain mode, up to the comments that it finds. -/
theorem State.step_withoutComments (mode : Mode) (s : State) :
    (s.step mode).withoutComments = s.step {} := by
  obtain ⟨c, goals⟩ := s
  cases goals with
  | nil => exact Step.withoutComments_topLevel ..
  | cons g goals =>
    cases g with
    | blanks => rfl
    | space => rfl
    | name role => exact Step.withoutComments_name ..
    | string role => exact Step.withoutComments_string ..
    | number => exact Step.withoutComments_number ..
    | elements s fixed => exact Step.withoutComments_elements ..
    | separator s fixed => exact Step.withoutComments_separator ..
    | construct k => exact Step.withoutComments_construct ..

/-! ## Runs -/

def Trace.withoutComments (t : Trace) : Trace :=
  { t with lexemes := t.lexemes.filter (·.kind.isPlain) }

theorem State.trace_withoutComments (mode : Mode) (s : State) :
    (s.trace mode).withoutComments = s.trace {} := by
  fun_induction State.trace mode s with
  | case1 s terminal c h =>
    have hs := s.step_withoutComments mode
    rw [h] at hs
    rw [State.trace_of_halt hs.symm]
    rfl
  | case2 s found t h rest ih =>
    have hs := s.step_withoutComments mode
    rw [h] at hs
    rw [State.trace_of_next hs.symm, ← ih]
    simp only [Trace.withoutComments, List.filter_append, rest]

theorem Trace.items_withoutComments (base : Nat) (t : Trace) :
    (t.items base).filter (·.kind.isPlain) = t.withoutComments.items base := by
  have hlast : [t.terminal.item base].filter (·.kind.isPlain) = [t.terminal.item base] := by
    cases t.terminal <;> rfl
  rw [items, List.filter_append, hlast, List.filter_map]
  rfl

/-- Two scans of a source, one with comments and one without, differ in the comments among their items
only, and leave the same lines behind. The scanners that go by recursive descent find the same items. -/
theorem Document.scan_withoutComments {doc : Document} {source : List UInt8}
    (h : source.length = doc.size) :
    ∃ items commented after, doc.scan source {} = .ok (items, after) ∧
      doc.scan source ⟨true⟩ = .ok (commented, after) ∧
      commented.filter (·.kind ≠ .comment) = items ∧
      ∀ rounds ≥ enoughRounds source,
        Input.items ⟨doc, source, {}, rounds⟩ = some (.ok items) ∧
        Input.items ⟨doc, source, ⟨true⟩, rounds⟩ = some (.ok commented) := by
  have htrace : (Trace.ofSource ⟨true⟩ source).withoutComments = Trace.ofSource {} source :=
    (State.initial source).trace_withoutComments ⟨true⟩
  have hscan : ∀ mode, doc.scan source mode = .ok ((Trace.ofSource mode source).items doc.base,
      doc.readLines source (Trace.ofSource mode source).seen) := fun mode => by
    rw [Document.scan, if_pos h]
  refine ⟨_, (Trace.ofSource ⟨true⟩ source).items doc.base, _, hscan {}, ?_, ?_, ?_⟩
  · rw [hscan, ← htrace]
    rfl
  · rw [← htrace]
    exact Trace.items_withoutComments ..
  · intro rounds henough
    exact ⟨Input.items_eq_trace h henough, Input.items_eq_trace h henough⟩

/-- A comment at the end of a line, a fault behind it. -/
theorem Document.scan_withoutComments_fault :
    [0x23, 0x61, 0x0D, 0x0A, 0x3F].length = ({ name := "a", base := 1, size := 5 } : Document).size ∧
      ∃ items commented after,
        ({ name := "a", base := 1, size := 5 } : Document).scan [0x23, 0x61, 0x0D, 0x0A, 0x3F] {} =
          .ok (items, after) ∧
        ({ name := "a", base := 1, size := 5 } : Document).scan [0x23, 0x61, 0x0D, 0x0A, 0x3F]
          ⟨true⟩ = .ok (commented, after) ∧
        commented.filter (·.kind ≠ .comment) = items ∧
        ∀ rounds ≥ enoughRounds [0x23, 0x61, 0x0D, 0x0A, 0x3F],
          Input.items ⟨{ name := "a", base := 1, size := 5 }, [0x23, 0x61, 0x0D, 0x0A, 0x3F], {},
            rounds⟩ = some (.ok items) ∧
          Input.items ⟨{ name := "a", base := 1, size := 5 }, [0x23, 0x61, 0x0D, 0x0A, 0x3F], ⟨true⟩,
            rounds⟩ = some (.ok commented) :=
  ⟨rfl, Document.scan_withoutComments rfl⟩

end SchemaScan
