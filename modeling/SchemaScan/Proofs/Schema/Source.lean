import SchemaScan.Proofs.Schema.Literals

/-! # Reading the source of a document

The bytes of a document are read as the runes of its pieces. No piece starts with a byte that could
continue a character of the piece in front of it.
-/
namespace SchemaScan.Schema

open Piece

/-- The bytes of a piece are read as its runes, whatever piece comes next. -/
def Piece.IsReadable (p : Piece) : Prop :=
  ∀ tail, Utf8.StartsFresh tail →
    Rune.read (p.runes.flatMap Rune.bytes ++ tail) = p.runes ++ Rune.read tail ∧
      Utf8.StartsFresh (p.runes.flatMap Rune.bytes ++ tail)

/-- All pieces are readable. -/
def Readable (ps : List Piece) : Prop := ∀ p ∈ ps, p.IsReadable

theorem isReadable_of_scalars {p : Piece} {cs : List Char} (h : p.runes = cs.map .scalar) :
    p.IsReadable := by
  intro tail ht
  rw [h, Rune.flatMap_bytes_scalars]
  refine ⟨Rune.read_scalars_append cs tail, ?_⟩
  cases cs with
  | nil => exact ht
  | cons c cs =>
    rw [List.flatMap_cons, List.append_assoc]
    exact Utf8.startsFresh_encode_append c _

theorem isReadable_string (role : StringRole) (s : StringToken) : (s.piece role).IsReadable := by
  intro tail ht
  have hbytes : (s.piece role).runes.flatMap Rune.bytes = s.bytes := Rune.flatMap_bytes_read _
  constructor
  · rw [hbytes]
    exact Rune.read_append ht
  · -- the first byte is that of the quote
    obtain ⟨r, rest, hr, hq⟩ := StringLiteral.head?_of_read s.isString
    have hfirst : r = .scalar '"' := by
      cases r with
      | scalar c => exact congrArg _ hq
      | stray b => cases hq
    change Utf8.StartsFresh ((Rune.read s.bytes).flatMap Rune.bytes ++ tail)
    rw [hr, hfirst, List.flatMap_cons, List.append_assoc]
    exact Utf8.startsFresh_encode_append '"' _

/-! ## Pieces in a row -/

@[simp] theorem readable_nil : Readable [] := by
  intro p hp
  cases hp

@[simp] theorem readable_cons {p : Piece} {ps : List Piece} :
    Readable (p :: ps) ↔ p.IsReadable ∧ Readable ps := List.forall_mem_cons

@[simp] theorem readable_append {ps qs : List Piece} :
    Readable (ps ++ qs) ↔ Readable ps ∧ Readable qs := List.forall_mem_append

@[simp] theorem isReadable_gap (cs : List Char) : (gap cs).IsReadable := isReadable_of_scalars rfl
@[simp] theorem isReadable_blank : blank.IsReadable := isReadable_of_scalars rfl
@[simp] theorem isReadable_lineBreak : lineBreak.IsReadable := isReadable_of_scalars rfl
@[simp] theorem isReadable_mark (m : Mark) : (mark m).IsReadable :=
  @isReadable_of_scalars _ [m.char] rfl
@[simp] theorem isReadable_word (k : Keyword) : (word k).IsReadable := isReadable_of_scalars rfl
@[simp] theorem isReadable_name (n : Name) : n.piece.IsReadable := isReadable_of_scalars rfl
@[simp] theorem isReadable_number (n : Number) : n.piece.IsReadable := isReadable_of_scalars rfl

theorem readable_flatMap {parts : List (List Piece)} {f : List Piece → List Piece}
    (hf : ∀ part, Readable part → Readable (f part)) (h : ∀ part ∈ parts, Readable part) :
    Readable (parts.flatMap f) := by
  intro p hp
  obtain ⟨part, hpart, hp⟩ := List.mem_flatMap.mp hp
  exact hf part (h part hpart) p hp

theorem readable_spaced {parts : List (List Piece)} (h : ∀ part ∈ parts, Readable part) :
    Readable (spaced parts) :=
  readable_flatMap (fun part hpart => by simpa using hpart) h

theorem readable_lines {parts : List (List Piece)} (h : ∀ part ∈ parts, Readable part) :
    Readable (lines parts) :=
  readable_flatMap (fun part hpart => by simpa using hpart) h

theorem readable_separated {join : List Piece} (hjoin : Readable join) {parts : List (List Piece)}
    (h : ∀ part ∈ parts, Readable part) : Readable (separated join parts) := by
  cases parts with
  | nil => exact readable_nil
  | cons part parts =>
    obtain ⟨hpart, hparts⟩ := List.forall_mem_cons.mp h
    refine readable_append.mpr ⟨hpart, ?_⟩
    exact readable_flatMap (fun _ h => readable_append.mpr ⟨hjoin, h⟩) hparts

theorem readable_commas {parts : List (List Piece)} (h : ∀ part ∈ parts, Readable part) :
    Readable (commas parts) := readable_separated (by simp) h

theorem readable_parenthesized {parts : List (List Piece)} (h : ∀ part ∈ parts, Readable part) :
    Readable (parenthesized parts) := by
  simp [parenthesized, readable_commas h]

/-! ## Constructs -/

theorem readable_value (v : Value) : Readable v.pieces := by
  match v with
  | .variable n => simp [Value.pieces]
  | .string s => simp [Value.pieces, isReadable_string]
  | .number n => simp [Value.pieces]
  | .name n => simp [Value.pieces]
  | .list vs =>
    have h : Readable (commas (vs.map Value.pieces)) := by
      apply readable_commas
      intro part hpart
      obtain ⟨v, hv, rfl⟩ := List.mem_map.mp hpart
      exact readable_value v
    simp [Value.pieces, h]
  | .object fs =>
    have h : Readable (commas (fs.map fun f => [f.1.piece, mark .colon, blank] ++ f.2.pieces)) := by
      apply readable_commas
      intro part hpart
      obtain ⟨f, hf, rfl⟩ := List.mem_map.mp hpart
      simp [readable_value f.2]
    simp only [Value.pieces, readable_append, h]
    simp
termination_by sizeOf v
decreasing_by
  · exact Value.sizeOf_lt_list hv
  · exact Value.sizeOf_lt_object hf

theorem readable_directive (d : Directive) : Readable d.pieces := by
  obtain ⟨n, arguments⟩ := d
  cases arguments with
  | none => simp [Directive.pieces]
  | some fs =>
    have h : Readable (parenthesized (fs.map field)) := by
      apply readable_parenthesized
      intro part hpart
      obtain ⟨f, -, rfl⟩ := List.mem_map.mp hpart
      simp [field, readable_value]
    simp [Directive.pieces, h]

theorem readable_directives (ds : List Directive) :
    ∀ part ∈ ds.map Directive.pieces, Readable part := by
  intro part hpart
  obtain ⟨d, -, rfl⟩ := List.mem_map.mp hpart
  exact readable_directive d

theorem readable_typed (type : TypeRef) (default : Option Value) (ds : List Directive) :
    Readable (typed type default ds) := by
  have htype : Readable type.pieces := by
    cases type with
    | named n isNonNull => cases isNonNull <;> simp [TypeRef.pieces, bangs]
    | list n itemIsNonNull isNonNull =>
      cases itemIsNonNull <;> cases isNonNull <;> simp [TypeRef.pieces, bangs]
  have hparts : Readable (spaced (typeParts default ds)) := by
    apply readable_spaced
    rw [typeParts, List.forall_mem_append]
    refine ⟨?_, readable_directives ds⟩
    cases default with
    | none => simp
    | some v => simp [readable_value]
  simp [typed, htype, hparts]

theorem readable_described (d : Option StringToken) {behind : Piece} (h : behind.IsReadable) :
    Readable (described d behind) := by
  cases d with
  | none => exact readable_nil
  | some s => simp [described, isReadable_string, h]

theorem readable_declaredArguments (arguments : Option (List Argument)) :
    Readable (declaredArguments arguments) := by
  cases arguments with
  | none => exact readable_nil
  | some arguments =>
    apply readable_parenthesized
    intro part hpart
    obtain ⟨a, -, rfl⟩ := List.mem_map.mp hpart
    simp [Argument.pieces, readable_typed, readable_described]

theorem readable_block (ms : List Member) : Readable (block ms) := by
  have h : Readable (lines (ms.map Member.pieces)) := by
    apply readable_lines
    intro part hpart
    obtain ⟨m, -, rfl⟩ := List.mem_map.mp hpart
    obtain ⟨description, n, type, ds⟩ := m
    cases type with
    | none =>
      simp [Member.pieces, readable_described, readable_spaced (readable_directives ds)]
    | some t =>
      simp [Member.pieces, readable_described, readable_declaredArguments, readable_typed]
  simp [block, h]

theorem readable_names (sign : Char) (ns : List Name) : Readable (names sign ns) := by
  apply readable_separated (by simp)
  intro part hpart
  obtain ⟨n, -, rfl⟩ := List.mem_map.mp hpart
  simp

theorem readable_typeBody (ds : List Directive) (ms : Option (List Member)) :
    ∀ part ∈ typeBody ds ms, Readable part := by
  rw [typeBody, List.forall_mem_append]
  refine ⟨readable_directives ds, ?_⟩
  cases ms with
  | none => simp
  | some ms => simp [readable_block]

theorem readable_definition (d : Definition) : Readable d.pieces := by
  induction d with
  | importPath path => simp [Definition.pieces, isReadable_string]
  | importPaths paths =>
    have h : Readable (lines (paths.map ([·.piece .importListPath]))) := by
      apply readable_lines
      intro part hpart
      obtain ⟨path, -, rfl⟩ := List.mem_map.mp hpart
      simp [isReadable_string]
    simp [Definition.pieces, h]
  | scalar n ds => simp [Definition.pieces, readable_spaced (readable_directives ds)]
  | schema ds ms => simp [Definition.pieces, readable_spaced (readable_typeBody ds (some ms))]
  | type w n is ds ms =>
    have h : ∀ part ∈ implementsParts is ++ typeBody ds ms, Readable part := by
      rw [List.forall_mem_append]
      refine ⟨?_, readable_typeBody ds ms⟩
      cases is with
      | nil => simp [implementsParts]
      | cons n ns => simp [implementsParts, readable_names]
    simp [Definition.pieces, readable_spaced h]
  | union n ds first others =>
    have h : ∀ part ∈ ds.map Directive.pieces ++
        [[mark .equals, blank] ++ names '|' (first :: others)], Readable part := by
      rw [List.forall_mem_append]
      refine ⟨readable_directives ds, ?_⟩
      simp [readable_names]
    simp only [Definition.pieces, readable_append, readable_spaced h]
    simp
  | directive n arguments first others =>
    have h : ∀ part ∈ [[word .on, blank] ++ names '|' (first :: others)], Readable part := by
      simp [readable_names]
    simp only [Definition.pieces, readable_append, readable_spaced h, readable_declaredArguments]
    simp
  | extend d ih => simp [Definition.pieces, ih]

theorem readable_document (entries : List Entry) : Readable (document entries) := by
  apply readable_lines
  intro part hpart
  obtain ⟨e, -, rfl⟩ := List.mem_map.mp hpart
  cases e with
  | string s => simp [Entry.pieces, isReadable_string]
  | definition d => exact readable_definition d

/-- Readable pieces are read as their runes, whatever comes next. -/
theorem read_pieces_append {ps : List Piece} (h : Readable ps) {tail : List UInt8}
    (ht : Utf8.StartsFresh tail) :
    Rune.read ((allRunes ps).flatMap Rune.bytes ++ tail) = allRunes ps ++ Rune.read tail ∧
      Utf8.StartsFresh ((allRunes ps).flatMap Rune.bytes ++ tail) := by
  induction ps with
  | nil => exact ⟨rfl, ht⟩
  | cons p ps ih =>
    obtain ⟨hp, hps⟩ := readable_cons.mp h
    obtain ⟨hread, hfresh⟩ := ih hps
    have := hp _ hfresh
    rw [hread, ← List.append_assoc, ← List.append_assoc, ← List.flatMap_append] at this
    exact this

theorem read_pieces {ps : List Piece} (h : Readable ps) :
    Rune.read ((allRunes ps).flatMap Rune.bytes) = allRunes ps := by
  have hread := (read_pieces_append h Utf8.startsFresh_nil).1
  rwa [Rune.read_nil, List.append_nil, List.append_nil] at hread

end SchemaScan.Schema
