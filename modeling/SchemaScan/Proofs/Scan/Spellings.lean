import SchemaScan.Proofs.Scan.Marks
import SchemaScan.Proofs.Scan.Numbers
import SchemaScan.Proofs.Scan.Strings

/-! # Spellings

The kind of an item and its text are settled apart from each other: the goals of the scan settle the kind,
and the text is what has been taken. They agree for every item of a document. The marks that separate
elements are dropped, so that no item is one of them.
-/
namespace SchemaScan

/-- The kind of a mark that separates elements. -/
def Kind.isSeparator : Kind → Bool
  | mark .ampersand | mark .pipe | mark .comma => true
  | _ => false

/-- The text is one that the kind stands for. A terminal item may have any text. -/
def Kind.Allows (mode : Mode) (kind : Kind) (text : String) : Prop :=
  match kind with
  | error | eof => True
  | mark _ | keyword _ => text = kind.label
  | ident => text.toList ≠ [] ∧ (∀ c ∈ text.toList, isNameContinue c = true) ∧
      ∀ k : Keyword, k.spelling ≠ text
  | string | description => ∃ inner, text.toList = '"' :: (inner ++ ['"'])
  | comment => mode.comments = true ∧ text.toList.head? = some '#' ∧
      ∀ c ∈ text.toList, isLineEnd c = false
  | int | float => text.toList.head?.any (fun c => c = '-' || c.isDigit) = true

/-! ## Marks that are never reported -/

theorem Kind.isSeparator_of_isIdle {k : Kind} (h : k.isIdle = false) : k.isSeparator = false := by
  cases k with
  | mark m => cases m <;> first | rfl | cases h
  | _ => rfl

/-- No token of a scan is a separator. -/
theorem State.trace_sparesSeparators (mode : Mode) {s : State} (hs : ∀ g ∈ s.goals, g.takesIdle = false) :
    ∀ l ∈ (s.trace mode).lexemes, l.kind.isSeparator = false := by
  fun_induction State.trace mode s with
  | case1 => exact List.forall_mem_nil _
  | case2 s found t hnext rest ih =>
    refine List.forall_mem_append.mpr ⟨?_, ih (takesIdle_of_next hnext hs)⟩
    have hstep := step_sparesIdle mode hs
    rw [hnext] at hstep
    cases found with
    | nil => exact List.forall_mem_nil _
    | cons l found =>
      refine List.forall_mem_cons.mpr ⟨Kind.isSeparator_of_isIdle hstep.1, fun k hk => ?_⟩
      have hperiod : k.kind = .mark .period := hstep.2 _ (List.mem_map_of_mem hk)
      rw [hperiod]
      rfl

/-! ## Texts -/

/-- The text of a token shows the characters that it takes. -/
theorem Trace.shows_text {mode : Mode} {source : List UInt8} {l : Lexeme}
    (h : l ∈ (ofSource mode source).lexemes) :
    Shows (l.runes.map Rune.char) (Rune.text l.runes).toList := by
  obtain ⟨first, hinit⟩ := State.initial_crosses source
  obtain ⟨c, d, hpassage, -⟩ := (State.initial source).trace_passage mode
  obtain ⟨⟨before, after, hall, -, -⟩, -, -⟩ := hpassage.liesIn hinit l h
  rw [List.append_assoc] at hall
  exact Rune.shows_text (Rune.read_drop hall)

/-- A string with its delimiters is all of the text that it opens. -/
theorem StringLiteral.Opens.eq_literal {cs : List Char} {q : Nat} {content : List StringLiteral.Piece}
    (h : StringLiteral.Opens cs q content []) : cs = StringLiteral.literal q content := by
  obtain ⟨hopening, -, hsplit, -⟩ := h
  have hquotes : cs.takeWhile (· = '"') = List.replicate q '"' := by
    refine List.eq_replicate_iff.mpr ⟨hopening, fun c hc => ?_⟩
    simpa using List.all_eq_true.mp List.all_takeWhile c hc
  have hbehind : cs.dropWhile (· = '"') =
      content.flatMap StringLiteral.Piece.chars ++ List.replicate q '"' := by
    rw [← StringLiteral.flatMap_chars_pieces (cs.dropWhile _), hsplit]
    simp [StringLiteral.Piece.chars]
  rw [StringLiteral.literal, List.append_assoc, ← hbehind, ← hquotes, List.takeWhile_append_dropWhile]

theorem StringLiteral.exists_literal_eq {q : Nat} (hq : 0 < q) (content : List StringLiteral.Piece) :
    ∃ inner, StringLiteral.literal q content = '"' :: (inner ++ ['"']) := by
  obtain ⟨q, rfl⟩ := Nat.exists_eq_succ_of_ne_zero (Nat.ne_of_gt hq)
  refine ⟨List.replicate q '"' ++ content.flatMap Piece.chars ++ List.replicate q '"', ?_⟩
  simp only [literal]
  conv_lhs =>
    rw [List.replicate_succ, List.cons_append, List.cons_append, ← List.replicate_succ,
      List.replicate_succ', ← List.append_assoc]

theorem isNameContinue_replacement : isNameContinue '\uFFFD' = false := by decide +kernel

namespace Kind

variable {mode : Mode} {rest taken : List Rune} {text : String}

theorem allows_mark {m : Mark} (hpeek : rest.head?.map Rune.char = some m.char)
    (hs : Shows ((rest.take 1).map Rune.char) text.toList) : (mark m).Allows mode text := by
  have htaken : (rest.take 1).map Rune.char = [m.char] := by
    cases rest with
    | nil => cases hpeek
    | cons r rest => simpa using hpeek
  rw [htaken] at hs
  have htext : text.toList = [m.char] := hs.eq_of_notMem (by cases m <;> decide)
  refine String.toList_injective (htext.trans ?_)
  simp [label]

/-- A name has none but name characters, so its text is what has been taken. -/
theorem allows_name (h : (NameSegment.read rest).value = true)
    (hs : Shows ((NameSegment.read rest).taken.map Rune.char) text.toList) :
    (ofName text).Allows mode text := by
  have hname : ∀ c ∈ (NameSegment.read rest).taken.map Rune.char, isNameContinue c = true := by
    intro c hc
    obtain ⟨r, hr, rfl⟩ := List.mem_map.mp hc
    exact Rune.of_mem_run hr
  have htext : text.toList = (NameSegment.read rest).taken.map Rune.char := by
    refine hs.eq_of_notMem fun hmem => ?_
    have hcontinue := hname _ hmem
    rw [isNameContinue_replacement] at hcontinue
    cases hcontinue
  cases hkind : ofName text with
  | ident =>
    refine ⟨?_, htext ▸ hname, ofName_eq_ident_iff.mp hkind⟩
    rw [htext, Ne, List.map_eq_nil_iff]
    simp only [NameSegment.read, Bool.and_eq_true, decide_eq_true_eq] at h
    exact h.1
  | keyword k =>
    rw [ofName] at hkind
    split at hkind
    · rename_i k' hk
      cases hkind
      exact (Keyword.spelling_of_ofSpelling? hk).symm
    · cases hkind
  | _ =>
    rw [ofName] at hkind
    split at hkind <;> cases hkind

theorem allows_string (role : StringRole) (h : (StringLiteral.read rest).value = true)
    (hs : Shows ((StringLiteral.read rest).taken.map Rune.char) text.toList) :
    role.kind.Allows mode text := by
  obtain ⟨q, content, after, hopens⟩ := StringLiteral.read_iff.mp h
  rw [(StringLiteral.read_of_opens hopens).2] at hs
  obtain ⟨content', hopens'⟩ := hopens.literal.shows hs
  have hquotes : ∃ inner, text.toList = '"' :: (inner ++ ['"']) := by
    rw [hopens'.eq_literal]
    exact StringLiteral.exists_literal_eq (by have := hopens.delimiter; omega) content'
  cases role <;> exact hquotes

theorem allows_number {kind : Kind} (h : (NumberLiteral.read rest).value = some kind)
    (hs : Shows ((NumberLiteral.read rest).taken.map Rune.char) text.toList) :
    kind.Allows mode text := by
  obtain ⟨n, htaken, -⟩ := NumberLiteral.exists_of_read h
  have hfirst : text.toList.head?.any (fun c => c = '-' || c.isDigit) = true := by
    rw [hs.head?, htaken]
    cases hsign : n.isNegative <;> simp [Schema.Number.chars, Rune.char, hsign, n.first.property]
  obtain rfl | rfl := NumberLiteral.kind_of_read h <;> exact hfirst

theorem allows_comment (hm : mode.comments = true) (hpeek : rest.head?.map Rune.char = some '#')
    (hs : Shows ((Rune.run (!isLineEnd ·) rest).map Rune.char) text.toList) :
    comment.Allows mode text := by
  refine ⟨hm, ?_, fun c hc => ?_⟩
  · rw [hs.head?]
    cases rest with
    | nil => cases hpeek
    | cons r rest =>
      have hr : r.char = '#' := by simpa using hpeek
      have hline : (!isLineEnd r.char) = true := by rw [hr]; rfl
      have hrun : Rune.run (!isLineEnd ·) (r :: rest) = r :: Rune.run (!isLineEnd ·) rest :=
        List.takeWhile_cons_of_pos hline
      rw [hrun, List.map_cons, hr, List.head?_cons]
  · obtain ⟨r, hr, rfl⟩ := List.mem_map.mp (hs.subset hc)
    simpa using Rune.of_mem_run hr

end Kind

/-- What is taken as a token has a text that the kind of the token stands for. -/
theorem Takes.allows {mode : Mode} {rest taken : List Rune} {kind : Kind}
    (h : Takes mode rest kind taken) (hs : Shows (taken.map Rune.char) (Rune.text taken).toList) :
    kind.Allows mode (Rune.text taken) := by
  cases h with
  | mark m hpeek => exact Kind.allows_mark hpeek hs
  | name hvalue => exact Kind.allows_name hvalue hs
  | string role hvalue => exact Kind.allows_string role hvalue hs
  | number hvalue => exact Kind.allows_number hvalue hs
  | comment hm hpeek => exact Kind.allows_comment hm hpeek hs

/-- Every item of a document has a text that its kind stands for, and none is a separator. -/
theorem Document.spellings_of_scan {doc : Document} {source : List UInt8}
    (h : source.length = doc.size) (mode : Mode) :
    ∃ items after, doc.scan source mode = .ok (items, after) ∧
      ∀ item ∈ items, item.kind.Allows mode item.text ∧ item.kind.isSeparator = false := by
  refine ⟨_, _, doc.scan_of_size h mode, List.forall_mem_append.mpr ⟨fun item hitem => ?_, ?_⟩⟩
  · obtain ⟨l, hl, rfl⟩ := List.mem_map.mp hitem
    have hkind := State.trace_sparesSeparators mode (s := State.initial source)
      (List.forall_mem_nil _) l hl
    obtain ⟨before, rest, -, -, htakes⟩ := Trace.exists_takes hl
    exact ⟨htakes.allows (Trace.shows_text hl), hkind⟩
  · rw [List.forall_mem_singleton]
    cases (Trace.ofSource mode source).terminal <;> exact ⟨trivial, rfl⟩

/-- A reserved word, a name and a comment. -/
theorem Document.spellings_of_scan_scalar :
    let doc : Document := { name := "a", base := 1, size := 11 }
    let source : List UInt8 := [0x73, 0x63, 0x61, 0x6C, 0x61, 0x72, 0x20, 0x41, 0x20, 0x23, 0x78]
    source.length = doc.size ∧
      ∃ items after, doc.scan source { comments := true } = .ok (items, after) ∧ ∀ item ∈ items,
        item.kind.Allows { comments := true } item.text ∧ item.kind.isSeparator = false :=
  ⟨rfl, Document.spellings_of_scan rfl { comments := true }⟩

end SchemaScan
