import SchemaScan.Proofs.Scan.Readings
import SchemaScan.Proofs.Scan.Words
import SchemaScan.Proofs.Text.Lossy

/-! # The language of strings

A text falls into pieces: a backslash with the character after it, a run of quotes, or any other
character. A string opens with one quote or with three, and is closed by the first run that is not
shorter, which must not be longer either. The recogniser takes exactly these strings, and so does the
head of a scanner, wherever it stands.
-/
namespace SchemaScan

namespace StringLiteral

/-- What a text is made of behind the opening quotes of a string. -/
inductive Piece where
  /-- A backslash and the character after it. -/
  | escape (c : Char)
  /-- A backslash after which nothing comes. -/
  | backslash
  /-- All quotes of a run. -/
  | quotes (n : Nat)
  | plain (c : Char)
  deriving DecidableEq, Repr

namespace Piece

def chars : Piece → List Char
  | escape c => ['\\', c]
  | backslash => ['\\']
  | quotes n => List.replicate n '"'
  | plain c => [c]

/-- The number of quotes that stand in a row and are not escaped. -/
def run : Piece → Nat
  | quotes n => n
  | _ => 0

/-- One more quote in front. -/
def quote : List Piece → List Piece
  | quotes n :: ps => quotes (n + 1) :: ps
  | ps => quotes 1 :: ps

end Piece

/-- The pieces of a text. -/
def pieces : List Char → List Piece
  | [] => []
  | c :: cs =>
    if c = '\\' then
      match cs with
      | [] => [.backslash]
      | escaped :: cs => .escape escaped :: pieces cs
    else if c = '"' then Piece.quote (pieces cs)
    else .plain c :: pieces cs

/-- Behind the pieces `content` stands the first run of `q` quotes or more, and it has `q` quotes. -/
structure ClosedBy (q : Nat) (ps content after : List Piece) : Prop where
  split : ps = content ++ .quotes q :: after
  content : ∀ p ∈ content, p.run < q ∧ p ≠ .backslash

/-- The text of a string. -/
def literal (q : Nat) (content : List Piece) : List Char :=
  List.replicate q '"' ++ content.flatMap Piece.chars ++ List.replicate q '"'

/-- The text begins with a string of `q` quotes, `content` and `q` quotes. -/
structure Opens (text : List Char) (q : Nat) (content after : List Piece) : Prop where
  opening : (text.takeWhile (· = '"')).length = q
  delimiter : q = 1 ∨ q = 3
  closed : ClosedBy q (pieces (text.dropWhile (· = '"'))) content after

/-! ## Pieces of a text -/

@[simp] theorem pieces_nil : pieces [] = [] := rfl

@[simp] theorem pieces_escape (c : Char) (cs : List Char) :
    pieces ('\\' :: c :: cs) = .escape c :: pieces cs := rfl

theorem pieces_quote (cs : List Char) : pieces ('"' :: cs) = Piece.quote (pieces cs) := by
  rw [pieces.eq_def]
  rfl

theorem pieces_plain {c : Char} (hc : c ≠ '\\') (hq : c ≠ '"') (cs : List Char) :
    pieces (c :: cs) = .plain c :: pieces cs := by
  rw [pieces.eq_def]
  simp only [hc, hq, ↓reduceIte]

theorem quote_pieces {cs : List Char} (h : cs.head? ≠ some '"') :
    Piece.quote (pieces cs) = .quotes 1 :: pieces cs := by
  cases cs with
  | nil => rfl
  | cons c cs =>
    have hc : c ≠ '"' := by simpa using h
    rw [pieces.eq_def]
    simp only [hc, ↓reduceIte]
    split
    · split <;> rfl
    · rfl

/-- A run of quotes is one piece. -/
theorem pieces_quotes {cs : List Char} (n : Nat) (h : cs.head? ≠ some '"') :
    pieces (List.replicate (n + 1) '"' ++ cs) = .quotes (n + 1) :: pieces cs := by
  induction n with
  | zero => exact (pieces_quote cs).trans (quote_pieces h)
  | succ n ih =>
    rw [List.replicate_succ, List.cons_append, pieces_quote, ih]
    rfl

/-- The pieces, one after the other, are the text. -/
theorem flatMap_chars_pieces (cs : List Char) : (pieces cs).flatMap Piece.chars = cs := by
  have hquote (ps : List Piece) : (Piece.quote ps).flatMap Piece.chars = '"' :: ps.flatMap Piece.chars := by
    unfold Piece.quote
    split <;> rfl
  fun_induction pieces cs with
  | case1 => rfl
  | case2 => rfl
  | case3 escaped cs ih => simp [Piece.chars, ih]
  | case4 cs _ ih => rw [hquote, ih]
  | case5 c cs _ _ ih => simp [Piece.chars, ih]

namespace ClosedBy

variable {q : Nat} {p : Piece} {ps content after : List Piece}

theorem cons (h : ClosedBy q ps content after) (hp : p.run < q ∧ p ≠ .backslash) :
    ClosedBy q (p :: ps) (p :: content) after := by
  refine ⟨?_, List.forall_mem_cons.mpr ⟨hp, h.content⟩⟩
  rw [h.split, List.cons_append]

theorem head (h : ClosedBy q (p :: ps) content after) : p = .quotes q ∧ content = [] ∨
    (p.run < q ∧ p ≠ .backslash) ∧ ∃ rest, content = p :: rest ∧ ClosedBy q ps rest after := by
  obtain ⟨hsplit, hcontent⟩ := h
  cases content with
  | nil =>
    rw [List.nil_append] at hsplit
    cases hsplit
    exact .inl ⟨rfl, rfl⟩
  | cons p' rest =>
    rw [List.cons_append] at hsplit
    cases hsplit
    obtain ⟨hp, hrest⟩ := List.forall_mem_cons.mp hcontent
    exact .inr ⟨hp, rest, rfl, rfl, hrest⟩

end ClosedBy

/-! ## The recogniser -/

theorem map_char_run (rs : List Rune) : (Rune.run isQuote rs).map Rune.char =
    List.replicate (Rune.run isQuote rs).length '"' := by
  rw [List.eq_replicate_iff]
  refine ⟨List.length_map .., ?_⟩
  intro c hc
  obtain ⟨r, hr, rfl⟩ := List.mem_map.mp hc
  simpa [isQuote] using Rune.of_mem_run hr

theorem head?_afterRun (rs : List Rune) :
    ((Rune.afterRun isQuote rs).map Rune.char).head? ≠ some '"' := by
  intro h
  rw [List.head?_map, Option.map_eq_some_iff] at h
  obtain ⟨r, hr, hc⟩ := h
  have hnot := List.head?_dropWhile_not (isQuote ·.char) rs
  rw [show rs.dropWhile (isQuote ·.char) = Rune.afterRun isQuote rs from rfl, hr] at hnot
  simp [isQuote, hc] at hnot

/-- The pieces of runes that begin with a quote. -/
theorem pieces_of_quote {r : Rune} {rest : List Rune} (hq : isQuote r.char = true) :
    pieces ((r :: rest).map Rune.char) = .quotes (r :: Rune.run isQuote rest).length ::
      pieces ((Rune.afterRun isQuote rest).map Rune.char) := by
  have hc : r.char = '"' := by simpa [isQuote] using hq
  have hrest : rest.map Rune.char = List.replicate (Rune.run isQuote rest).length '"' ++
      (Rune.afterRun isQuote rest).map Rune.char := by
    rw [← map_char_run, ← List.map_append, Rune.run_append_afterRun]
  rw [List.map_cons, hrest, hc, ← List.cons_append, ← List.replicate_succ]
  exact pieces_quotes _ (head?_afterRun rest)

theorem pieces_of_escape {r escaped : Rune} {rest : List Rune} (hr : r.char = '\\') :
    pieces ((r :: escaped :: rest).map Rune.char) =
      .escape escaped.char :: pieces (rest.map Rune.char) := by
  rw [List.map_cons, List.map_cons, hr, pieces_escape]

theorem pieces_of_plain {r : Rune} {rest : List Rune} (hr : r.char ≠ '\\')
    (hq : ¬ isQuote r.char = true) :
    pieces ((r :: rest).map Rune.char) = .plain r.char :: pieces (rest.map Rune.char) := by
  rw [List.map_cons, pieces_plain hr (by simpa [isQuote] using hq)]

theorem closedBy_of_body {q : Nat} {rs : List Rune} (hv : (body q rs).value = true) (hq : 0 < q) :
    ∃ content after, ClosedBy q (pieces (rs.map Rune.char)) content after := by
  fun_induction body q rs with
  | case1 => cases hv
  | case2 => cases hv
  | case3 r hr escaped rest ih =>
    obtain ⟨content, after, h⟩ := ih hv
    rw [pieces_of_escape hr]
    exact ⟨_, _, h.cons ⟨hq, by simp⟩⟩
  | case4 r rest hr hquote =>
    rename_i quotes hlt ih
    obtain ⟨content, after, h⟩ := ih hv
    rw [pieces_of_quote hquote]
    exact ⟨_, _, h.cons ⟨hlt, by simp⟩⟩
  | case5 r rest hr hquote =>
    rename_i quotes hge
    have hlen : quotes.length = q := by simpa using hv
    rw [pieces_of_quote hquote, show (r :: Rune.run isQuote rest).length = q from hlen]
    exact ⟨[], _, rfl, List.forall_mem_nil _⟩
  | case6 r rest hr hquote ih =>
    obtain ⟨content, after, h⟩ := ih hv
    rw [pieces_of_plain hr hquote]
    exact ⟨_, _, h.cons ⟨hq, by simp⟩⟩

theorem body_of_closedBy {q : Nat} {rs : List Rune} {content after : List Piece}
    (h : ClosedBy q (pieces (rs.map Rune.char)) content after) :
    (body q rs).value = true ∧
      (body q rs).taken.map Rune.char = content.flatMap Piece.chars ++ List.replicate q '"' := by
  fun_induction body q rs generalizing content with
  | case1 =>
    have := h.split
    simp at this
  | case2 r hr =>
    rw [List.map_cons, List.map_nil, pieces, if_pos hr] at h
    obtain ⟨hp, -⟩ | ⟨⟨-, hp⟩, -⟩ := h.head
    · cases hp
    · exact absurd rfl hp
  | case3 r hr escaped rest ih =>
    rw [pieces_of_escape hr] at h
    obtain ⟨hp, -⟩ | ⟨-, content, rfl, hrest⟩ := h.head
    · cases hp
    · obtain ⟨hv, ht⟩ := ih hrest
      refine ⟨hv, ?_⟩
      simp [Reading.after, ht, Piece.chars, hr]
  | case4 r rest hr hquote =>
    rename_i quotes hlt ih
    rw [pieces_of_quote hquote] at h
    obtain ⟨hp, -⟩ | ⟨-, content, rfl, hrest⟩ := h.head
    · injection hp with hp
      exact absurd hp (Nat.ne_of_lt hlt)
    · obtain ⟨hv, ht⟩ := ih hrest
      refine ⟨hv, ?_⟩
      have hc : r.char = '"' := by simpa [isQuote] using hquote
      simp [Reading.after, ht, Piece.chars, quotes, hc, map_char_run, List.replicate_succ]
  | case5 r rest hr hquote =>
    rename_i quotes hge
    rw [pieces_of_quote hquote] at h
    obtain ⟨hp, rfl⟩ | ⟨⟨hlt, -⟩, -⟩ := h.head
    · injection hp with hp
      have hc : r.char = '"' := by simpa [isQuote] using hquote
      refine ⟨decide_eq_true hp, ?_⟩
      simp [quotes, hc, map_char_run, ← hp, List.replicate_succ]
    · exact absurd hlt hge
  | case6 r rest hr hquote ih =>
    rw [pieces_of_plain hr hquote] at h
    obtain ⟨hp, -⟩ | ⟨-, content, rfl, hrest⟩ := h.head
    · cases hp
    · obtain ⟨hv, ht⟩ := ih hrest
      refine ⟨hv, ?_⟩
      simp [Reading.after, ht, Piece.chars]

theorem takeWhile_map_char (rs : List Rune) :
    (rs.map Rune.char).takeWhile (· = '"') = (Rune.run isQuote rs).map Rune.char ∧
      (rs.map Rune.char).dropWhile (· = '"') = (Rune.afterRun isQuote rs).map Rune.char :=
  ⟨List.takeWhile_map .., List.dropWhile_map ..⟩

theorem read_of_opens {rs : List Rune} {q : Nat} {content after : List Piece}
    (h : Opens (rs.map Rune.char) q content after) : (read rs).value = true ∧
      (read rs).taken.map Rune.char = literal q content := by
  obtain ⟨hrun, hafter⟩ := takeWhile_map_char rs
  obtain ⟨hopening, hdelimiter, hclosed⟩ := h
  rw [hrun, List.length_map] at hopening
  rw [hafter] at hclosed
  obtain ⟨hvalue, htaken⟩ := body_of_closedBy hclosed
  simp only [read, hopening]
  rw [if_pos hdelimiter]
  refine ⟨hvalue, ?_⟩
  rw [Reading.after, List.map_append, htaken, map_char_run, hopening, literal, List.append_assoc]

/-- The recogniser takes exactly the strings. -/
theorem read_iff {rs : List Rune} :
    (read rs).value = true ↔ ∃ q content after, Opens (rs.map Rune.char) q content after := by
  refine ⟨fun hvalue => ?_, fun ⟨_, _, _, h⟩ => (read_of_opens h).1⟩
  obtain ⟨hrun, hafter⟩ := takeWhile_map_char rs
  simp only [read] at hvalue
  split at hvalue
  · rename_i hdelimiter
    obtain ⟨content, after, h⟩ := closedBy_of_body hvalue (by omega)
    refine ⟨_, content, after, ?_, hdelimiter, ?_⟩
    · rw [hrun, List.length_map]
    · rwa [hafter]
  · cases hvalue

/-! ## Texts of strings -/

/-- The pieces of a first part of the pieces of a text. -/
theorem pieces_of_append {cs : List Char} {ps qs : List Piece} (h : pieces cs = ps ++ qs) :
    pieces (ps.flatMap Piece.chars) = ps := by
  fun_induction pieces cs generalizing ps with
  | case1 =>
    rw [(List.append_eq_nil_iff.mp h.symm).1]
    rfl
  | case2 =>
    cases ps with
    | nil => rfl
    | cons p ps =>
      rw [List.cons_append] at h
      injection h with hp h
      rw [(List.append_eq_nil_iff.mp h.symm).1, ← hp]
      rfl
  | case3 escaped cs ih =>
    cases ps with
    | nil => rfl
    | cons p ps =>
      rw [List.cons_append] at h
      injection h with hp h
      rw [← hp, List.flatMap_cons, Piece.chars, List.cons_append, List.singleton_append, pieces_escape, ih h]
  | case4 cs _ ih =>
    cases ps with
    | nil => rfl
    | cons p ps =>
      -- the run of quotes begins here or goes on
      unfold Piece.quote at h
      split at h
      · rename_i n us hus
        rw [List.cons_append] at h
        injection h with hp h
        have hrest : pieces ((.quotes n :: ps).flatMap Piece.chars) = .quotes n :: ps :=
          ih (by rw [hus, h, List.cons_append])
        rw [← hp, List.flatMap_cons, Piece.chars, List.replicate_succ, List.cons_append, pieces_quote]
        rw [List.flatMap_cons, Piece.chars] at hrest
        rw [hrest]
        rfl
      · rename_i hus
        rw [List.cons_append] at h
        injection h with hp h
        rw [← hp, List.flatMap_cons, Piece.chars, List.replicate_one, List.singleton_append, pieces_quote,
          ih h]
        cases ps with
        | nil => rfl
        | cons p ps =>
          cases p with
          | quotes n => exact absurd h (hus n _)
          | _ => rfl
  | case5 c cs hc hq ih =>
    cases ps with
    | nil => rfl
    | cons p ps =>
      rw [List.cons_append] at h
      injection h with hp h
      rw [← hp, List.flatMap_cons, Piece.chars, List.singleton_append, pieces_plain hc hq, ih h]

/-- The text of a string is a string with nothing behind it. -/
theorem Opens.literal {cs : List Char} {q : Nat} {content after : List Piece} (h : Opens cs q content after) :
    Opens (literal q content) q content [] := by
  obtain ⟨-, hdelimiter, hsplit, hcontent⟩ := h
  let inner := content.flatMap Piece.chars ++ List.replicate q '"'
  have hpieces : pieces inner = content ++ [.quotes q] := by
    have hfront : pieces (cs.dropWhile (· = '"')) = (content ++ [.quotes q]) ++ after := by
      rw [hsplit, ← List.append_cons]
    have := pieces_of_append hfront
    rwa [List.flatMap_append, List.flatMap_singleton] at this
  have hwhole : cs.dropWhile (· = '"') = inner ++ after.flatMap Piece.chars := by
    rw [← flatMap_chars_pieces (cs.dropWhile _), hsplit]
    simp [inner, Piece.chars]
  have hnot := List.head?_dropWhile_not (· = '"') cs
  have hnil : inner.takeWhile (· = '"') = [] := by
    rw [hwhole] at hnot
    cases hi : inner with
    | nil =>
      have := congrArg List.length hi
      simp only [inner, List.length_append, List.length_replicate, List.length_nil] at this
      omega
    | cons c inner =>
      rw [hi] at hnot
      exact List.takeWhile_cons_of_neg (by simpa using hnot)
  have hquotes : ∀ c ∈ List.replicate q '"', decide (c = '"') = true := by
    intro c hc
    simpa using (List.mem_replicate.mp hc).2
  have hdrop : inner.dropWhile (· = '"') = inner := by
    have := List.takeWhile_append_dropWhile (p := (· = '"')) (l := inner)
    rwa [hnil, List.nil_append] at this
  rw [StringLiteral.literal, List.append_assoc]
  refine ⟨?_, hdelimiter, ?_, hcontent⟩
  · rw [List.takeWhile_append_of_pos hquotes, hnil, List.append_nil, List.length_replicate]
  · rw [List.dropWhile_append_of_pos hquotes, hdrop, hpieces]

/-- The second pieces are the first ones, except that some U+FFFD behind others are left out. -/
inductive Thinned : List Piece → List Piece → Prop
  | nil : Thinned [] []
  | cons (p : Piece) {ps qs : List Piece} (h : Thinned ps qs) : Thinned (p :: ps) (p :: qs)
  | broken (n : Nat) {p : Piece} (hp : p = .plain '\uFFFD' ∨ p = .escape '\uFFFD') {ps qs : List Piece}
      (h : Thinned ps qs) : Thinned (p :: (List.replicate n (.plain '\uFFFD') ++ ps)) (p :: qs)

namespace Thinned

variable {ps qs content : List Piece} {xs ys : List Char} {q : Nat}

theorem quote (h : Thinned ps qs) : Thinned (Piece.quote ps) (Piece.quote qs) := by
  cases h with
  | nil => exact .cons _ .nil
  | cons p h =>
    cases p with
    | quotes n => exact .cons _ h
    | _ => exact .cons _ (.cons _ h)
  | broken n hp h => obtain rfl | rfl := hp <;> exact .cons _ (.broken n (by simp) h)

theorem pieces_broken (n : Nat) (xs : List Char) :
    pieces (List.replicate n '\uFFFD' ++ xs) = List.replicate n (.plain '\uFFFD') ++ pieces xs := by
  induction n with
  | zero => rfl
  | succ n ih =>
    rw [List.replicate_succ, List.cons_append, pieces_plain (by decide) (by decide), ih,
      List.replicate_succ, List.cons_append]

/-- A backslash in front takes one character away from the pieces behind it. -/
theorem of_shows (h : Shows xs ys) : Thinned (pieces xs) (pieces ys) ∧
    Thinned (pieces ('\\' :: xs)) (pieces ('\\' :: ys)) := by
  induction h with
  | nil => exact ⟨.nil, .cons _ .nil⟩
  | @cons c xs ys _ ih =>
    obtain ⟨ih, ihescaped⟩ := ih
    rw [pieces_escape, pieces_escape]
    refine ⟨?_, ih.cons _⟩
    by_cases hc : c = '\\'
    · rw [hc]
      exact ihescaped
    · by_cases hq : c = '"'
      · rw [hq, pieces_quote, pieces_quote]
        exact ih.quote
      · rw [pieces_plain hc hq, pieces_plain hc hq]
        exact ih.cons _
  | broken n _ ih =>
    rw [pieces_escape, pieces_escape, pieces_plain (by decide) (by decide),
      pieces_plain (by decide) (by decide), pieces_broken]
    exact ⟨ih.1.broken n (.inl rfl), ih.1.broken n (.inr rfl)⟩

theorem closedBy (h : Thinned ps qs) (hc : ClosedBy q ps content []) :
    ∃ content', ClosedBy q qs content' [] := by
  induction h generalizing content with
  | nil =>
    have := hc.split
    simp at this
  | @cons p ps qs h ih =>
    obtain ⟨rfl, rfl⟩ | ⟨hp, rest, -, hrest⟩ := hc.head
    · have hnil := hc.split
      rw [List.nil_append] at hnil
      injection hnil with _ hnil
      rw [hnil] at h
      cases h
      exact ⟨[], rfl, List.forall_mem_nil _⟩
    · obtain ⟨content', h'⟩ := ih hrest
      exact ⟨_, h'.cons hp⟩
  | @broken n p hp ps qs h ih =>
    have hleft (n : Nat) {content : List Piece}
        (hc : ClosedBy q (List.replicate n (.plain '\uFFFD') ++ ps) content []) :
        ∃ rest, ClosedBy q ps rest [] := by
      induction n generalizing content with
      | zero => exact ⟨content, hc⟩
      | succ n ihn =>
        rw [List.replicate_succ, List.cons_append] at hc
        obtain ⟨hq, -⟩ | ⟨-, rest, -, hrest⟩ := hc.head
        · cases hq
        · exact ihn hrest
    obtain ⟨hq, -⟩ | ⟨hlt, rest, -, hrest⟩ := hc.head
    · obtain rfl | rfl := hp <;> cases hq
    · obtain ⟨rest, hrest⟩ := hleft n hrest
      obtain ⟨content', h'⟩ := ih hrest
      exact ⟨_, h'.cons hlt⟩

end Thinned

theorem shows_quotes {xs ys : List Char} (h : Shows xs ys) :
    (ys.takeWhile (· = '"')).length = (xs.takeWhile (· = '"')).length ∧
      Shows (xs.dropWhile (· = '"')) (ys.dropWhile (· = '"')) := by
  induction h with
  | nil => exact ⟨rfl, .nil⟩
  | @cons c xs ys h ih =>
    by_cases hq : c = '"'
    · simpa [hq] using ih
    · simpa [hq] using h.cons c
  | broken n h _ => simpa using h.broken n

/-- A text that shows a string is a string. -/
theorem Opens.shows {xs ys : List Char} {q : Nat} {content : List Piece} (h : Opens xs q content [])
    (hs : Shows xs ys) : ∃ content', Opens ys q content' [] := by
  obtain ⟨hlength, hbehind⟩ := shows_quotes hs
  obtain ⟨hopening, hdelimiter, hclosed⟩ := h
  obtain ⟨content', hclosed'⟩ := (Thinned.of_shows hbehind).1.closedBy hclosed
  exact ⟨content', hlength.trans hopening, hdelimiter, hclosed'⟩

end StringLiteral

open StringLiteral

/-- Strings and descriptions are what the recogniser of strings takes. -/
theorem Takes.string_value {mode : Mode} {rest taken : List Rune} {kind : Kind}
    (h : Takes mode rest kind taken) (hk : kind = .string ∨ kind = .description) :
    (StringLiteral.read rest).value = true ∧ taken = (StringLiteral.read rest).taken := by
  cases h with
  | string role hvalue => exact ⟨hvalue, rfl⟩
  | mark m _ => simp at hk
  | comment _ _ => simp at hk
  | name _ =>
    unfold Kind.ofName at hk
    split at hk <;> simp at hk
  | number hvalue =>
    obtain rfl | rfl := NumberLiteral.kind_of_read hvalue <;> simp at hk

/-- The text of a string or of a description is a string. -/
theorem Trace.text_opens {mode : Mode} {source : List UInt8} {base : Nat} {item : Item}
    (h : item ∈ (ofSource mode source).items base)
    (hk : item.kind = .string ∨ item.kind = .description) :
    ∃ q content, Opens item.text.toList q content [] := by
  rcases List.mem_append.mp h with htoken | hterminal
  · obtain ⟨l, hl, rfl⟩ := List.mem_map.mp htoken
    obtain ⟨before, rest, hread, -, htakes⟩ := exists_takes hl
    obtain ⟨hvalue, htaken⟩ := htakes.string_value hk
    obtain ⟨q, content, after, hopens⟩ := read_iff.mp hvalue
    have hshows : Shows (l.runes.map Rune.char) (Rune.text l.runes).toList := by
      have hleft : Rune.read (source.drop (Rune.span before)) = l.runes ++ (StringLiteral.read rest).rest := by
        rw [Rune.read_drop hread, htaken, read_taken_append_rest]
      exact Rune.shows_text hleft
    rw [htaken, (read_of_opens hopens).2] at hshows
    obtain ⟨content', hopens'⟩ := hopens.literal.shows hshows
    refine ⟨q, content', ?_⟩
    rw [← htaken] at hopens'
    exact hopens'
  · obtain rfl := List.mem_singleton.mp hterminal
    cases hend : (ofSource mode source).terminal <;> simp [hend, Terminal.item] at hk

namespace Scanner

/-- From wherever a head stands, it takes what the recogniser takes. -/
theorem string_takes {input : Input} (hfits : input.source.length = input.doc.size)
    (henough : enoughRounds input.source ≤ input.rounds) {h : Head} (hroom : h.room = none)
    (hinside : h.pos ≤ input.source.length) :
    let reading := StringLiteral.read (Rune.read (input.source.drop h.pos))
    ∃ h', string input h = some (.ok reading.value, h') ∧
      Rune.read (input.source.drop h'.pos) = reading.rest ∧ h'.start = h.start ∧ h'.found = h.found := by
  intro reading
  let c : Cursor := ⟨h.start, 0, 0, []⟩
  let d : Cursor := ⟨h.pos, h.line, 0, Rune.read (input.source.drop h.pos)⟩
  have hd : d.Sits input := ⟨hfits, henough, hinside, rfl⟩
  have hx : d.Crosses reading.taken (d.advance reading.taken reading.rest) :=
    .advance (read_taken_append_rest _)
  let e := d.advance reading.taken reading.rest
  have hends : Ends input [] string (.spanning h.found c d h.width) fun closed h' =>
      closed = reading.value ∧ h' = .spanning h.found c e e.width :=
    (ends_string hd hx).mpr ⟨rfl, rfl⟩
  have hhead : Head.spanning h.found c d h.width = h := by
    obtain ⟨pos, start, width, line, found, room⟩ := h
    subst hroom
    rfl
  rw [hhead, Ends] at hends
  split at hends
  · cases hends
  · rename_i closed h' hrun
    obtain ⟨rfl, rfl⟩ := hends
    exact ⟨_, hrun, (hd.crosses hx).rest.symm, rfl, rfl⟩
  · cases hends
  · cases hends
  · exact absurd hends.2 (by simp)

end Scanner

/-- The head has tried to take a string, and tells whether there is one. -/
structure Head.TriesString (source : List UInt8) (h h' : Head) (closed : Bool) : Prop where
  closed_iff : closed = true ↔
    ∃ q content after, Opens ((Rune.read (source.drop h.pos)).map Rune.char) q content after
  /-- The string is taken up to its closing quotes and no further. -/
  takes : ∀ q content after, Opens ((Rune.read (source.drop h.pos)).map Rune.char) q content after →
    ∃ taken, Rune.read (source.drop h.pos) = taken ++ Rune.read (source.drop h'.pos) ∧
      taken.map Rune.char = literal q content
  keeps : h'.start = h.start ∧ h'.found = h.found

/-- Strings are taken wherever they stand in a source, and nothing else is, and the items of the source
that are strings or descriptions have strings as their texts. -/
theorem Document.strings_of_scan {doc : Document} {source : List UInt8} (h : source.length = doc.size)
    (mode : Mode) :
    (∀ rounds ≥ enoughRounds source, ∀ head : Head, head.room = none → head.pos ≤ source.length →
      ∃ closed head', Scanner.string ⟨doc, source, mode, rounds⟩ head = some (.ok closed, head') ∧
        head.TriesString source head' closed) ∧
      ∃ items after, doc.scan source mode = .ok (items, after) ∧
        ∀ item ∈ items, item.kind = .string ∨ item.kind = .description →
          ∃ q content, Opens item.text.toList q content [] := by
  refine ⟨fun rounds henough head hroom hinside => ?_, _, _, doc.scan_of_size h mode, ?_⟩
  · obtain ⟨head', hrun, hrest, hstart, hfound⟩ :=
      @Scanner.string_takes ⟨doc, source, mode, rounds⟩ h henough head hroom hinside
    refine ⟨_, head', hrun, read_iff, ?_, hstart, hfound⟩
    intro q content after hopens
    refine ⟨_, ?_, (read_of_opens hopens).2⟩
    rw [hrest, read_taken_append_rest]
  · exact fun item hitem hk => Trace.text_opens hitem hk

/-- An escaped quote, and two bytes that stand for one character of the text. -/
theorem Document.strings_of_scan_broken :
    let doc : Document := { name := "a", base := 1, size := 6 }
    let source : List UInt8 := [0x22, 0x5C, 0x22, 0xE2, 0x82, 0x22]
    source.length = doc.size ∧
    (∀ rounds ≥ enoughRounds source, ∀ head : Head, head.room = none → head.pos ≤ source.length →
      ∃ closed head', Scanner.string ⟨doc, source, {}, rounds⟩ head = some (.ok closed, head') ∧
        head.TriesString source head' closed) ∧
      ∃ items after, doc.scan source {} = .ok (items, after) ∧
        ∀ item ∈ items, item.kind = .string ∨ item.kind = .description →
          ∃ q content, Opens item.text.toList q content [] :=
  ⟨rfl, Document.strings_of_scan rfl {}⟩

end SchemaScan
