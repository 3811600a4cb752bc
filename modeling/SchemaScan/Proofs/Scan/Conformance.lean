import SchemaScan.Proofs.Scan.Expectations
import SchemaScan.Proofs.Scan.Steps
import SchemaScan.Proofs.Schema.Documents
import SchemaScan.Proofs.Schema.Nesting

/-! # Conformance

Without comments, what a step finds and what is expected behind it make words that were expected in
front of it. So the tokens of a source that is scanned to its end make a word of the grammar.
-/
namespace SchemaScan

open Computability Grammar

theorem Kind.ofName_mem_name (text : String) : [Kind.ofName text] ∈ Grammar.name := by
  refine ⟨_, rfl, ?_⟩
  unfold ofName
  split
  · exact .inr rfl
  · exact .inl rfl

theorem NumberLiteral.kind_le_of_read {rs : List Rune} {k : Kind} (h : (read rs).value = some k) :
    kind k ≤ kind .int + kind .float := by
  rcases kind_of_read h with rfl | rfl
  · exact le_sup_left
  · exact le_sup_right

/-- What may be found before the stack of goals is empty, and then up to the end of the document. -/
def Goal.stackWords (goals : List Goal) : Language Kind := Goal.allWords goals * entries

theorem Goal.stackWords_nil : Goal.stackWords [] = entries := one_mul _

theorem Goal.stackWords_cons (g : Goal) (goals : List Goal) :
    Goal.stackWords (g :: goals) = g.words * Goal.stackWords goals := mul_assoc ..

theorem Goal.stackWords_append (a b : List Goal) :
    Goal.stackWords (a ++ b) = Goal.allWords a * Goal.stackWords b := by
  rw [stackWords, allWords_append, mul_assoc, stackWords]

/-- A name that is accepted in its role stands for what follows it there. -/
theorem NameRole.kind_mul_following {role : NameRole} {k : Kind} (h : role.accepts k = true)
    (hk : [k] ∈ Grammar.name) : kind k * Goal.allWords (role.following k) ≤ role.words := by
  cases role with
  | definition =>
    cases k with
    | keyword w =>
      calc kind (.keyword w) * Goal.allWords (Goal.definitionRest w)
          ≤ keyword w * Goal.allWords (Goal.definitionRest w) := by
            gcongr
            exact kind_le_keyword w
        _ ≤ Grammar.definition := Goal.keyword_mul_definitionRest w
    | _ => cases h
  | implements | on =>
    obtain rfl := of_decide_eq_true h
    exact (mul_one _).le.trans (kind_le_keyword _)
  | plain use =>
    have hname : kind k ≤ Grammar.name := Set.singleton_subset_iff.mpr hk
    exact (mul_one _).le.trans (hname.trans name_le_qualified)

namespace Goal

/-- What is found for a goal makes, with the words of the goals in its place, words of the goal. -/
theorem Yields.words {g : Goal} {found : List Kind} {inner : List Goal} (h : g.Yields found inner) :
    ({found} : Language Kind) * allWords inner ≤ g.words := by
  cases h with
  | blanks | space => exact (one_mul _).le
  | qualified role text =>
    have hsegment : ({[Kind.ofName text, .mark .period]} : Language Kind) ≤
        Grammar.name * Grammar.mark .period :=
      Set.singleton_subset_iff.mpr (Language.append_mem_mul (Kind.ofName_mem_name text) rfl)
    rw [allWords_singleton]
    exact (mul_le_mul_left hsegment role.words).trans role.segment_words
  | name haccepts => exact NameRole.kind_mul_following haccepts (Kind.ofName_mem_name _)
  | lost =>
    rw [allWords_definitionRest_on, mul_zero]
    exact bot_le
  | string role => exact (mul_one _).le
  | number h => exact (mul_one _).le.trans (NumberLiteral.kind_le_of_read h)
  | @closes g s m hg h =>
    have hwords : g.words = s.elementWords∗ * Grammar.mark m := by
      cases hg <;> simp only [Goal.words, Series.words, h]
    rw [hwords]
    exact (mul_one _).le.trans (le_mul_of_one_le_left' one_le_kstar)
  | @ends g s hg h =>
    have hwords : g.words = s.words := by cases hg <;> rfl
    rw [hwords]
    exact (one_mul _).le.trans (Series.one_le_words h)
  | again | behind | separated | fixes =>
    rw [allWords_singleton]
    exact (one_mul _).le
  | element s fixed =>
    rw [allWords_append, allWords_element, allWords_singleton]
    exact (one_mul _).le.trans s.elementWords_mul_words
  | @expand k next _ hk =>
    have hwithin := k.choose_within next
    rw [hk] at hwithin
    exact (one_mul _).le.trans hwithin
  | @take k next _ _ hk =>
    have hwithin := k.choose_within next
    rwa [hk] at hwithin

theorem Finds.words {before after : List Goal} {found : List Kind} (h : Finds before found after)
    (hplain : .comment ∉ found) : ({found} : Language Kind) * stackWords after ≤ stackWords before := by
  have hentry {l : Language Kind} (h : l ≤ kind .string + Grammar.definition) : l * entries ≤ entries := by
    calc l * entries ≤ (kind .string + Grammar.definition) * entries := by gcongr
      _ ≤ entries := mul_kstar_le_kstar
  cases h with
  | top => exact (one_mul _).le
  | string =>
    rw [stackWords_nil]
    exact hentry le_sup_left
  | definition h =>
    rw [stackWords_nil, stackWords, ← mul_assoc]
    exact hentry (h.words.trans le_sup_right)
  | inside h =>
    rw [stackWords_append, stackWords_cons, ← mul_assoc]
    gcongr
    exact h.words
  | comment => exact absurd List.mem_cons_self hplain

end Goal

/-- Where comments are not asked for, none is taken. -/
theorem TakesAll.comment_notMem {c d : Cursor} {found : List Lexeme} (h : TakesAll {} c found d) :
    .comment ∉ found.map (·.kind) := by
  induction h with
  | nil => exact List.not_mem_nil
  | cons htakes _ _ ih =>
    refine List.not_mem_cons_of_ne_of_not_mem ?_ ih
    cases htakes with
    | mark => nofun
    | comment hm => cases hm
    | name =>
      unfold Kind.ofName
      split <;> nofun
    | string role => cases role <;> nofun
    | number h => obtain rfl | rfl := NumberLiteral.kind_of_read h <;> nofun

/-- The words that the step leads to lie in the language. -/
def Step.Conforms (l : Language Kind) : Step → Prop
  | next found t => ∀ w ∈ Goal.stackWords t.goals, found.map (·.kind) ++ w ∈ l
  | halt (.eof _ _) _ => [] ∈ l
  | halt (.fault _ _ _) _ => True

theorem State.Makes.conforms {s : State} {step : Step} (h : s.Makes {} step) :
    step.Conforms (Goal.stackWords s.goals) := by
  cases h with
  | ends hgoals =>
    rw [hgoals, Goal.stackWords_nil]
    exact Language.nil_mem_kstar _
  | fails => trivial
  | goes _ _ htakes hfinds =>
    exact fun w hw => hfinds.words htakes.comment_notMem (Language.append_mem_mul rfl hw)
  | loses _ hfinds =>
    exact fun w hw => hfinds.words List.not_mem_nil (Language.append_mem_mul rfl hw)

/-- A step leads only to words that were expected. -/
theorem State.step_conforms (s : State) : (s.step {}).Conforms (Goal.stackWords s.goals) :=
  (s.step_makes {}).conforms

/-- A scan that reaches the end has found what was expected. -/
theorem State.trace_conforms (s : State) {start line : Nat}
    (h : (s.trace {}).terminal = .eof start line) :
    (s.trace {}).lexemes.map (·.kind) ∈ Goal.stackWords s.goals := by
  fun_induction State.trace {} s with
  | case1 s terminal c hhalt =>
    have hs := s.step_conforms
    obtain rfl : terminal = .eof start line := h
    rw [hhalt] at hs
    exact hs
  | case2 s found t hnext rest ih =>
    have hs := s.step_conforms
    rw [hnext] at hs
    rw [List.map_append]
    exact hs _ (ih h)

theorem Trace.ofSource_conforms (source : List UInt8) {start line : Nat}
    (h : (ofSource {} source).terminal = .eof start line) :
    (ofSource {} source).lexemes.map (·.kind) ∈ entries := by
  rw [← Goal.stackWords_nil]
  exact State.trace_conforms (State.initial source) h

/-- The tokens of a source that is scanned to its end make a word of the grammar; in particular
parentheses and braces are nested in it. -/
theorem Document.scan_conforms {doc after : Document} {source : List UInt8} {items : List Item}
    (h : doc.scan source {} = .ok (items, after))
    (hend : items.getLast?.map (·.kind) = some .eof) :
    items.map (·.kind) ∈ Grammar.document ∧ nests [] (items.map (·.kind)) = true := by
  simp only [scan] at h
  split at h
  · cases h
    have hword : ((Trace.ofSource {} source).items doc.base).map (·.kind) ∈ Grammar.document := by
      rw [Trace.items, List.getLast?_concat] at hend
      rw [Trace.items, List.map_append, List.map_map]
      cases ht : (Trace.ofSource {} source).terminal with
      | eof start line => exact Language.append_mem_mul (Trace.ofSource_conforms source ht) rfl
      | fault f start line =>
        rw [ht] at hend
        cases hend
    exact ⟨hword, nests_of_mem_document hword⟩
  · cases h

/-- The source `schema {`, `a`, `}` in three lines. -/
theorem Document.scan_conforms_schema : ∃ items after,
    ({ name := "a", base := 1, size := 13 } : Document).scan
      [0x73, 0x63, 0x68, 0x65, 0x6D, 0x61, 0x20, 0x7B, 0x0A, 0x61, 0x0A, 0x7D, 0x0A] {} =
        .ok (items, after) ∧
      items.getLast?.map (·.kind) = some .eof ∧
      items.map (·.kind) = [.keyword .schema, .mark .braceOpen, .ident, .mark .braceClose, .eof] ∧
      items.map (·.kind) ∈ Grammar.document ∧ nests [] (items.map (·.kind)) = true := by
  let entries : List Schema.Entry :=
    [.definition (.schema [] [⟨none, ⟨'a', [], rfl, List.forall_mem_nil _⟩, none, []⟩])]
  let source : List UInt8 :=
    [0x73, 0x63, 0x68, 0x65, 0x6D, 0x61, 0x20, 0x7B, 0x0A, 0x61, 0x0A, 0x7D, 0x0A]
  have hsource : Schema.source entries = source := by decide
  obtain ⟨seen, htrace⟩ := Schema.trace_source {} entries
  rw [hsource] at htrace
  have hend : ((Trace.ofSource {} source).items 1).getLast?.map (·.kind) = some .eof := by
    rw [htrace]
    rfl
  have hconforms :=
    @Document.scan_conforms { name := "a", base := 1, size := 13 } _ source _ rfl hend
  refine ⟨_, _, rfl, hend, ?_, hconforms⟩
  change ((Trace.ofSource {} source).items 1).map (·.kind) = _
  rw [htrace]
  rfl

end SchemaScan
