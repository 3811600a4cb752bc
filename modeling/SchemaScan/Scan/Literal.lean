import SchemaScan.Scan.Cursor
import SchemaScan.Text.Layout
import SchemaScan.Token.Kind

/-! # Literals and name segments

Each recogniser reads from the front of the source and says what it took, what is left, and whether
that is a token. What it took and what is left are always the whole source; a failed recogniser
shows how far it came. Every recogniser has read the first rune of what is left.
-/
namespace SchemaScan

/-- The result of a recogniser. -/
structure Reading (α : Type) where
  value : α
  taken : List Rune
  rest : List Rune

namespace Reading

/-- A reading with more runes taken in front of it. -/
def after {α : Type} (r : Reading α) (taken : List Rune) : Reading α :=
  { r with taken := taken ++ r.taken }

end Reading

/-! ## Strings -/

namespace StringLiteral

/-- The double quote. -/
def isQuote (c : Char) : Bool := c = '"'

/-- Reads a string after its opening run of `delimiter` quotes. A backslash and the rune after it
belong to the content, and so does a run of fewer quotes; the first other run of quotes ends the
string, and has to be as long as the opening one. -/
def body (delimiter : Nat) (rs : List Rune) : Reading Bool :=
  match rs with
  | [] => ⟨false, [], []⟩
  | r :: rest =>
    if r.char = '\\' then
      match rest with
      | [] => ⟨false, [r], []⟩
      | escaped :: rest => (body delimiter rest).after [r, escaped]
    else if isQuote r.char then
      let quotes := r :: Rune.run isQuote rest
      if quotes.length < delimiter then
        (body delimiter (Rune.afterRun isQuote rest)).after quotes
      else ⟨quotes.length = delimiter, quotes, Rune.afterRun isQuote rest⟩
    else (body delimiter rest).after [r]
termination_by rs.length
decreasing_by
  · simp only [List.length_cons]
    omega
  · have := Rune.length_afterRun_le isQuote rest
    simp only [List.length_cons]
    omega
  · simp

/-- Reads a string, quotes included. It opens with one quote or, as a block, with three. -/
def read (rs : List Rune) : Reading Bool :=
  let quotes := Rune.run isQuote rs
  let rest := Rune.afterRun isQuote rs
  if quotes.length = 1 ∨ quotes.length = 3 then (body quotes.length rest).after quotes
  else ⟨false, quotes, rest⟩

theorem body_taken_append_rest (delimiter : Nat) (rs : List Rune) :
    (body delimiter rs).taken ++ (body delimiter rs).rest = rs := by
  fun_induction body delimiter rs with
  | case1 => rfl
  | case2 => rfl
  | case3 r _ escaped rest ih => simpa [Reading.after] using ih
  | case4 r rest _ _ quotes _ ih =>
    simp only [Reading.after, List.append_assoc, ih, quotes, List.cons_append,
      Rune.run_append_afterRun]
  | case5 r rest _ _ quotes _ =>
    simp only [quotes, List.cons_append, Rune.run_append_afterRun]
  | case6 r rest _ _ ih => simpa [Reading.after] using ih

/-- A string reading splits the source. -/
theorem read_taken_append_rest (rs : List Rune) : (read rs).taken ++ (read rs).rest = rs := by
  simp only [read]
  split
  · simp only [Reading.after, List.append_assoc, body_taken_append_rest,
      Rune.run_append_afterRun]
  · exact Rune.run_append_afterRun ..

/-- A string takes at least its quotes. -/
theorem length_rest_lt {rs : List Rune} (h : (read rs).value = true) :
    (read rs).rest.length < rs.length := by
  have hs := congrArg List.length (read_taken_append_rest rs)
  have ht : (read rs).taken ≠ [] := by
    intro ht
    simp only [read] at h ht
    split at h
    · rename_i hq
      rw [if_pos hq] at ht
      have := (List.append_eq_nil_iff.mp ht).1
      simp_all
    · simp at h
  have := List.length_pos_iff.mpr ht
  simp only [List.length_append] at hs
  omega

end StringLiteral

/-! ## Numbers -/

namespace NumberLiteral

/-- The rune at the front, if its character satisfies `p`. -/
def optional (p : Char → Bool) : List Rune → List Rune × List Rune
  | [] => ([], [])
  | r :: rest => if p r.char then ([r], rest) else ([], r :: rest)

/-- A point and digits, if there is a point. -/
def fraction (rs : List Rune) : List Rune × List Rune :=
  match optional (· = '.') rs with
  | ([], rest) => ([], rest)
  | (point, rest) => (point ++ Rune.run Char.isDigit rest, Rune.afterRun Char.isDigit rest)

/-- The letter `e`, a sign, if there is one, and digits, if there is such a letter. -/
def exponent (rs : List Rune) : List Rune × List Rune :=
  match optional (fun c => c = 'e' || c = 'E') rs with
  | ([], rest) => ([], rest)
  | (letter, rest) =>
    let (sign, rest) := optional (fun c => c = '+' || c = '-') rest
    (letter ++ sign ++ Rune.run Char.isDigit rest, Rune.afterRun Char.isDigit rest)

/-- Reads a number: a minus sign, if there is one, at least one digit, a fraction and an
exponent. Without a digit there is no number. -/
def read (rs : List Rune) : Reading (Option Kind) :=
  let (sign, rest) := optional (· = '-') rs
  let digits := Rune.run Char.isDigit rest
  let rest := Rune.afterRun Char.isDigit rest
  if digits = [] then ⟨none, sign, rest⟩
  else
    let (fractional, rest) := fraction rest
    let (exponential, rest) := exponent rest
    ⟨some (if fractional = [] ∧ exponential = [] then .int else .float),
      sign ++ digits ++ fractional ++ exponential, rest⟩

theorem optional_append (p : Char → Bool) (rs : List Rune) :
    (optional p rs).1 ++ (optional p rs).2 = rs := by
  cases rs with
  | nil => rfl
  | cons r rest =>
    simp only [optional]
    split <;> rfl

theorem fraction_append (rs : List Rune) : (fraction rs).1 ++ (fraction rs).2 = rs := by
  have h := optional_append (· = '.') rs
  unfold fraction
  split
  · rename_i he
    rwa [he] at h
  · rename_i he
    rw [he] at h
    rw [List.append_assoc, Rune.run_append_afterRun, h]

theorem exponent_append (rs : List Rune) : (exponent rs).1 ++ (exponent rs).2 = rs := by
  have h := optional_append (fun c => c = 'e' || c = 'E') rs
  unfold exponent
  split
  · rename_i he
    rwa [he] at h
  · rename_i he
    rw [he] at h
    have hs := optional_append (fun c => c = '+' || c = '-') (optional (fun c => c = 'e' || c = 'E') rs).2
    rw [he] at hs
    simp only [List.append_assoc, Rune.run_append_afterRun, hs, h]

theorem kind_of_read {rs : List Rune} {kind : Kind} (h : (read rs).value = some kind) :
    kind = .int ∨ kind = .float := by
  simp only [read] at h
  split at h
  · cases h
  · cases h
    split
    · exact .inl rfl
    · exact .inr rfl

/-- A number reading splits the source. -/
theorem read_taken_append_rest (rs : List Rune) : (read rs).taken ++ (read rs).rest = rs := by
  have h := optional_append (· = '-') rs
  have hd := Rune.run_append_afterRun Char.isDigit (optional (· = '-') rs).2
  have hf := fraction_append (Rune.afterRun Char.isDigit (optional (· = '-') rs).2)
  have he := exponent_append (fraction (Rune.afterRun Char.isDigit (optional (· = '-') rs).2)).2
  simp only [read]
  split
  · rename_i hn
    rw [hn, List.nil_append] at hd
    simp only [hd, h]
  · simp only [List.append_assoc, he, hf, hd, h]

theorem length_rest_le (rs : List Rune) : (read rs).rest.length ≤ rs.length := by
  have := congrArg List.length (read_taken_append_rest rs)
  simp only [List.length_append] at this
  omega

end NumberLiteral

/-! ## Name segments -/

namespace NameSegment

/-- The characters that may follow a name directly. -/
def isTerminator (c : Char) : Bool :=
  isSpace c || c = '.' || c = ',' || c = ':' || c = ')' || c = '(' || c = '!' || c = ']'

/-- A name may end in front of these runes. -/
def endsBefore : List Rune → Bool
  | [] => true
  | r :: _ => isTerminator r.char

/-- Reads the longest run of name characters. It is a name segment if it is not empty and a
terminator or the end of the source follows. -/
def read (rs : List Rune) : Reading Bool :=
  let taken := Rune.run isNameContinue rs
  let rest := Rune.afterRun isNameContinue rs
  ⟨taken ≠ [] && endsBefore rest, taken, rest⟩

/-- A name reading splits the source. -/
theorem read_taken_append_rest (rs : List Rune) : (read rs).taken ++ (read rs).rest = rs :=
  Rune.run_append_afterRun ..

/-- A name segment takes at least one rune. -/
theorem length_rest_lt {rs : List Rune} (h : (read rs).value = true) :
    (read rs).rest.length < rs.length := by
  have hs := congrArg List.length (read_taken_append_rest rs)
  have ht : (read rs).taken ≠ [] := by
    simp only [read, Bool.and_eq_true, decide_eq_true_eq] at h
    exact h.1
  have := List.length_pos_iff.mpr ht
  simp only [List.length_append] at hs
  omega

end NameSegment

end SchemaScan
