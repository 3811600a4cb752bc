import SchemaScan.Proofs.Scan.Types
import SchemaScan.Proofs.Schema.Enumerations

/-! # Types with any of the marks

Every mark around the name of a type may be missing by itself. So a scan accepts the name with any of them,
also where they make up no type.
-/
namespace SchemaScan

namespace Schema

open Piece

def Name.kind (n : Name) : Kind := Kind.ofName (String.ofList n.chars)

/-- A schema with one member. -/
structure Typed where
  name : Name
  /-- The marks around the type of the member. -/
  form : Grammar.TypeForm
  type : Name

namespace Typed

def given (isThere : Bool) (m : Mark) : List Piece := if isThere then [mark m] else []

/-- The name with its marks. The blank tells the bang in front of it from the one behind it. -/
def typePieces (t : Typed) : List Piece :=
  given t.form.isOpened .bracketOpen ++ t.type.piece :: (given t.form.hasInnerBang .bang ++
    blank :: (given t.form.isClosed .bracketClose ++ given t.form.hasOuterBang .bang))

def pieces (t : Typed) : List Piece :=
  [word .schema, blank, mark .braceOpen, t.name.piece, mark .colon] ++ t.typePieces ++ [mark .braceClose]

def source (t : Typed) : List UInt8 := (allRunes t.pieces).flatMap Rune.bytes

theorem readable_pieces (t : Typed) : Readable t.pieces := by
  have hgiven (isThere : Bool) (m : Mark) : Readable (given isThere m) := by
    cases isThere <;> simp [given]
  simp [pieces, typePieces, hgiven]

theorem kinds_given (isThere : Bool) (m : Mark) (offset line : Nat) :
    (lexemes offset line (given isThere m)).map (·.kind) = Grammar.given isThere m := by
  cases isThere <;> rfl

theorem kinds_pieces (t : Typed) : (lexemes 0 1 t.pieces).map (·.kind) =
    [.keyword .schema, .mark .braceOpen, t.name.kind, .mark .colon] ++ t.form.kinds [t.type.kind] ++
      [.mark .braceClose] := by
  simp [pieces, typePieces, lexemes, lexemes_append, kinds_given, Grammar.TypeForm.kinds, word, mark, blank,
    Name.piece, Name.kind]

end Typed

namespace Reads

variable {mode : Mode} {next : Option Char}

theorem given (isThere : Bool) {m : Mark} (h : next ≠ some m.char) :
    Reads mode [.construct (.optional m)] (Typed.given isThere m) [] next := by
  cases isThere with
  | true => exact take (if_pos rfl)
  | false => exact no_mark h

/-- Each mark is taken where it stands, and passed over where another one or none stands. -/
theorem type (t : Typed) : Reads mode Goal.type t.typePieces [] (some '}') := by
  obtain ⟨-, ⟨isOpened, hasInnerBang, isClosed, hasOuterBang⟩, n⟩ := t
  have hclosing : Reads mode [.construct (.optional .bracketClose), .construct (.optional .bang), .blanks]
      (Typed.given isClosed .bracketClose ++ Typed.given hasOuterBang .bang) [] (some '}') := by
    have houter : Reads mode [.construct (.optional .bang), .blanks] (Typed.given hasOuterBang .bang ++ [])
        [] (some '}') := (given hasOuterBang (by decide)).parts (no_blanks rfl)
    rw [List.append_nil] at houter
    refine (given isClosed ?_).parts houter
    cases hasOuterBang <;> decide
  have hbehind : Reads mode [.construct (.optional .bang), .blanks, .construct (.optional .bracketClose),
      .construct (.optional .bang), .blanks] (Typed.given hasInnerBang .bang ++ Piece.blank ::
        (Typed.given isClosed .bracketClose ++ Typed.given hasOuterBang .bang)) [] (some '}') := by
    refine (given hasInnerBang (by simp [Mark.char])).parts ((Reads.blank ?_).step hclosing)
    cases isClosed <;> cases hasOuterBang <;> rfl
  have hname : endsName (front (Typed.given hasInnerBang .bang ++ Piece.blank ::
      (Typed.given isClosed .bracketClose ++ Typed.given hasOuterBang .bang)) (some '}')) = true := by
    cases hasInnerBang <;> rfl
  have hnamed := (name .typeName n hname).step hbehind
  refine (no_blanks ?_).pass ((given isOpened (n.first_ne rfl)).parts hnamed)
  cases isOpened with
  | true => rfl
  | false => exact n.isBlank_first

/-- The member, from its name to its type. -/
theorem typedMember (t : Typed) : Reads mode (Goal.element .members)
    (t.name.piece :: mark .colon :: t.typePieces) [] (some '}') := by
  have hbehind : Reads mode [.construct .defaultValue, .blanks, .construct (.directives .member)] [] []
      (some '}') := (expand rfl).pass ((no_blanks rfl).pass (expand rfl))
  have htype : Reads mode Goal.memberType (t.typePieces ++ []) [] (some '}') :=
    ((type t).frame _).trans hbehind
  rw [List.append_nil] at htype
  have hcolon : Reads mode [.construct .memberRest] [mark .colon] Goal.memberType
      (front t.typePieces (some '}')) := take rfl
  refine described none (c := ' ') rfl t.name ?_
  exact (name .member t.name rfl).step ((no_blanks rfl).pass (hcolon.trans htype))

theorem typed (t : Typed) : Reads mode [.name .definition] t.pieces [] next := by
  have hword : Reads mode [.name .definition] [Piece.word .schema] [.blanks, .construct .typeRest]
      (some ' ') := word .schema rfl rfl rfl
  have hhead : Reads mode [.name .definition] [Piece.word .schema, Piece.blank, mark .braceOpen]
      [.elements .members none] (some t.name.first) :=
    hword.trans ((Reads.blank rfl).step blockHead)
  have hmember : Reads mode [.elements .members none]
      (gap [] :: (t.name.piece :: mark .colon :: t.typePieces)) [.separator .members none] (some '}') :=
    element_of_fits none (fits_name .members t.name (typedMember t)) no_layout
  have hclose : Reads mode [.separator .members none] [mark .braceClose] [] next :=
    separator_close rfl (by decide)
  have hall := hhead.trans ((gap_nil_iff.mp hmember).trans hclose)
  simpa [Typed.pieces] using hall

end Reads

/-- The scan of a member with any marks around its type reaches the end. -/
theorem Typed.trace_source (t : Typed) (mode : Mode) :
    ∃ seen, Trace.ofSource mode t.source =
      ⟨lexemes 0 1 t.pieces, .eof t.source.length (1 + t.source.count 0x0A), seen⟩ := by
  have hmark : front t.pieces none ≠ some byteOrderMark := by
    have hfront : front t.pieces none = some 's' := rfl
    rw [hfront]
    decide
  refine trace_pieces mode t.readable_pieces hmark (ReadsTop.of_goal (fun c hc => ?_) (Reads.typed t))
  have hpeek : c.peek = some 's' := hc
  have hspace : isSpace 's' = false := rfl
  have hstart : isNameStart 's' = true := by decide
  simp [State.step, Step.topLevel, hpeek, hspace, hstart]

end Schema

open Schema in
/-- A type may have any of the marks, in any combination. -/
theorem Document.scan_typed (doc : Document) (t : Typed) (mode : Mode) :
    ∃ items after, { doc with size := t.source.length }.scan t.source mode = .ok (items, after) ∧
      items.map (·.kind) = [.keyword .schema, .mark .braceOpen, t.name.kind, .mark .colon] ++
        t.form.kinds [t.type.kind] ++ [.mark .braceClose, .eof] := by
  refine ⟨_, _, if_pos rfl, ?_⟩
  obtain ⟨seen, htrace⟩ := t.trace_source mode
  have hkinds : ((Piece.lexemes 0 1 t.pieces).map (·.item doc.base)).map (·.kind) =
      (Piece.lexemes 0 1 t.pieces).map (·.kind) := by simp [Lexeme.item]
  rw [htrace, Trace.items, List.map_append, hkinds, t.kinds_pieces, List.append_assoc]
  rfl

/-- A type that is opened and not closed. -/
theorem Document.scan_unclosed :
    ∃ items after, ({ name := "a", base := 1, size := 14 } : Document).scan
        "schema {a:[T }".toUTF8.data.toList {} = .ok (items, after) ∧
      items.map (·.kind) = [.keyword .schema, .mark .braceOpen, .ident, .mark .colon] ++
        [.mark .bracketOpen, .ident] ++ [.mark .braceClose, .eof] ∧
      ∀ q ∈ Grammar.qualified, [.mark .bracketOpen, .ident] ∉ Grammar.typesOf q := by
  refine ⟨_, _, if_pos (by decide +kernel), by decide +kernel, fun q hq h => ?_⟩
  have hbalanced := (Grammar.isBalanced_of_mem_typesOf hq h).1
  simp at hbalanced

end SchemaScan
