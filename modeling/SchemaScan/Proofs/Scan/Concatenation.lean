import SchemaScan.Proofs.Scan.Continuations
import SchemaScan.Proofs.Scan.Gaps

/-! # Sources behind one another

A source that ends with a line feed, and whose scan comes to its end, may have another one behind it: its
items stay, and those of the other source follow them, so many bytes and lines further on. Of the other
source only a byte-order mark would be taken for something else.
-/
namespace SchemaScan

/-- The item so many bytes and lines further on. -/
def Item.moved (bytes lines : Nat) (item : Item) : Item :=
  { item with pos := item.pos + bytes, line := item.line + lines }

theorem Lexeme.item_moved (base bytes lines : Nat) (l : Lexeme) :
    (l.moved bytes lines).item base = (l.item base).moved bytes lines := by
  simp only [Lexeme.item, Lexeme.moved, Item.moved, Nat.add_assoc]

theorem Terminal.item_moved (base bytes lines : Nat) (terminal : Terminal) :
    (terminal.moved bytes lines).item base = (terminal.item base).moved bytes lines := by
  cases terminal <;> simp only [Terminal.item, Terminal.moved, Item.moved, Nat.add_assoc]

theorem Trace.Moves.items {bytes lines : Nat} {t u : Trace} (h : t.Moves bytes lines u) (base : Nat) :
    u.items base = (t.items base).map (·.moved bytes lines) := by
  simp only [Trace.items, h.lexemes, h.terminal, List.map_append, List.map_map, List.map_cons,
    List.map_nil, Terminal.item_moved, Function.comp_def, Lexeme.item_moved]

namespace State

variable {source more : List UInt8} {mode : Mode}

/-- With more behind it, the scan of a source starts in front of the same runes. -/
theorem initial_continues (h : source.getLast? = some 0x0A) :
    (initial source).Continues 0 0 (Rune.read more) (initial (source ++ more)) := by
  obtain ⟨hread, hs⟩ := Rune.read_append_of_lineFeed h more
  have hstart : (Cursor.start (Rune.read source)).Continues 0 0 (Rune.read more)
      (Cursor.start (Rune.read (source ++ more))) := ⟨rfl, rfl, hread⟩
  simp only [initial, hstart.peek hs]
  split
  · rename_i hmark
    exact ⟨hstart.next hmark, hs.next_of_ne hmark (by decide), rfl⟩
  · exact ⟨hstart, hs, rfl⟩

/-- Without a byte-order mark the scan starts in front of the first rune. -/
theorem initial_of_not_marked (h : ¬[0xEF, 0xBB, 0xBF] <+: source) :
    initial source = ⟨Cursor.start (Rune.read source), []⟩ := by
  have hmark : ¬(Cursor.start (Rune.read source)).peek = some byteOrderMark := by
    rw [← isPrefixOf_source_iff, List.isPrefixOf_iff_prefix]
    exact h
  rw [initial, if_neg hmark]

end State

theorem Trace.items_append {source more : List UInt8} {mode : Mode} {stop line : Nat}
    (hend : (ofSource mode source).terminal = .eof stop line)
    (hline : source.getLast? = some 0x0A) (hmark : ¬[0xEF, 0xBB, 0xBF] <+: more) (base : Nat) :
    (ofSource mode (source ++ more)).items base = ((ofSource mode source).items base).dropLast ++
      ((ofSource mode more).items base).map (·.moved source.length (source.count 0x0A)) := by
  obtain ⟨rfl, rfl⟩ := Trace.end_of_source hend
  -- where the second source starts, in the scan of both
  let e : Cursor := ⟨source.length, source.count 0x0A + 1, 0, Rune.read more⟩
  have hmore : State.Continues source.length (source.count 0x0A) [] (State.initial more) ⟨e, []⟩ := by
    rw [State.initial_of_not_marked hmark]
    refine ⟨⟨?_, ?_, ?_⟩, Rune.sealed_nil _, rfl⟩
    · exact (Nat.zero_add _).symm
    · exact Nat.add_comm ..
    · exact (List.append_nil _).symm
  have hgoals (s : List UInt8) : Goal.DescribesNames (State.initial s).goals = true := rfl
  obtain ⟨hlexemes, hterminal⟩ :=
    State.trace_append (e := e) (State.initial_continues hline) (hgoals source) hend rfl rfl rfl
  have hmoves : (ofSource mode more).Moves _ _ (State.trace mode ⟨e, []⟩) :=
    State.trace_moves hmore (hgoals more)
  have hid : (fun l : Lexeme => l.moved 0 0) = id := rfl
  rw [hid, List.map_id] at hlexemes
  rw [← hmoves.items base]
  simp only [Trace.items, List.dropLast_concat, ← List.append_assoc, ← List.map_append, ofSource]
  rw [hlexemes, hterminal]

/-- If the first source ends with a line feed and its scan comes to its end, its items but for the last
are followed by those of the second source, moved by the length of the first source and the number of its
line feeds. -/
theorem Document.scan_append {doc after : Document} {source more : List UInt8} {mode : Mode}
    {items : List Item}
    (h : { doc with size := source.length }.scan source mode = .ok (items, after))
    (hend : items.getLast?.map (·.kind) = some .eof) (hline : source.getLast? = some 0x0A)
    (hmark : ¬[0xEF, 0xBB, 0xBF] <+: more) :
    ∃ items' after' after'',
      { doc with size := more.length }.scan more mode = .ok (items', after') ∧
      { doc with size := (source ++ more).length }.scan (source ++ more) mode =
        .ok (items.dropLast ++ items'.map (·.moved source.length (source.count 0x0A)), after'') := by
  obtain ⟨rfl, stop, line, hterminal⟩ := Document.trace_of_scan h hend
  have hscan := scan_of_size { doc with size := (source ++ more).length } rfl mode
  rw [Trace.items_append hterminal hline hmark] at hscan
  exact ⟨_, _, _, scan_of_size _ rfl mode, hscan⟩

/-- The second source has a fault. -/
theorem Document.scan_append_unclosed :
    let source := "union A = B\n".toUTF8.data.toList
    let more := "\nunion C = |\n".toUTF8.data.toList
    ∃ items after,
      ({ name := "a", base := 1, size := 12 } : Document).scan source {} = .ok (items, after) ∧
      items.getLast?.map (·.kind) = some .eof ∧ source.getLast? = some 0x0A ∧
      ¬[0xEF, 0xBB, 0xBF] <+: more ∧
      ∃ items' after' after'',
        ({ name := "a", base := 1, size := 13 } : Document).scan more {} = .ok (items', after') ∧
        ({ name := "a", base := 1, size := 25 } : Document).scan (source ++ more) {} =
          .ok (items.dropLast ++ items'.map (·.moved 12 1), after'') := by
  intro source more
  have hscan : ({ name := "a", base := 1, size := 12 } : Document).scan source {} =
      .ok ((Trace.ofSource {} source).items 1, _) := if_pos (by decide +kernel)
  have hend : ((Trace.ofSource {} source).items 1).getLast?.map (·.kind) = some .eof := by
    decide +kernel
  have hline : source.getLast? = some 0x0A := by decide +kernel
  have hmark : ¬[0xEF, 0xBB, 0xBF] <+: more := by decide +kernel
  exact ⟨_, _, hscan, hend, hline, hmark,
    @Document.scan_append { name := "a", base := 1, size := 0 } _ _ _ _ _ hscan hend hline hmark⟩

end SchemaScan
