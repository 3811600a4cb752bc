import Mathlib.Data.List.Forall2
import SchemaScan.Proofs.CommandLine.Summaries
import SchemaScan.Proofs.Source.Placement

/-! # Openings

If there is room for all files that can be read, each of them has a document of its own when the scans start,
and the errors about the others have been reported.
-/
namespace SchemaScan.CommandLine

/-- The first free position behind the documents of some texts. -/
def room : List Text → Nat
  | [] => 1
  | t :: texts => t.content.length + 1 + room texts

theorem room_concat (texts : List Text) (t : Text) :
    room (texts ++ [t]) = room texts + t.content.length + 1 := by
  induction texts with
  | nil => exact (Nat.add_comm ..).trans (Nat.add_assoc ..).symm
  | cons first texts ih =>
    rw [List.cons_append, room, room, ih]
    omega

/-- A document for the text of which nothing has been noted. -/
structure Text.Fits (t : Text) (doc : Document) : Prop where
  fresh : doc.IsFresh
  name : doc.name = t.name
  size : t.content.length = doc.size

/-- The space has a document for the text at the index. -/
def Text.IsAt (t : Text) (index : Nat) (space : PositionSpace) : Prop :=
  ∃ doc, space.docs[index]? = some doc ∧ t.Fits doc

namespace Opening

/-- The files are registered or reported. -/
structure Registers (o : Opening) (files : List SourceFile) : Prop where
  orderly : o.space.Orderly
  next : o.space.next = room (files.filterMap SourceFile.text?)
  opened : List.Forall₂ (fun file t => file.content = t.content ∧ t.IsAt file.index o.space) o.opened
    (files.filterMap SourceFile.text?)
  indices : o.opened.map (·.index) = List.range o.space.docs.length
  report : o.report = Report.add {} [] (files.filterMap SourceFile.readError?)

variable {o : Opening} {files : List SourceFile} {f : SourceFile}

theorem Registers.read (h : o.Registers files) {content : List UInt8} (hf : f.content = .ok content)
    (hroom : room ((files ++ [f]).filterMap SourceFile.text?) ≤ positionLimit) :
    ∃ next, o.file false f = .ok next ∧ next.Registers (files ++ [f]) := by
  have htexts : (files ++ [f]).filterMap SourceFile.text? =
      files.filterMap SourceFile.text? ++ [⟨f.name, content⟩] := by
    simp [SourceFile.text?, hf, Except.toOption]
  have hnext : o.space.next + content.length + 1 = room ((files ++ [f]).filterMap SourceFile.text?) := by
    rw [htexts, room_concat, h.next]
  have hregister : o.space.register f.name none content.length = .ok _ :=
    PositionSpace.register_eq_ok_iff.mpr ⟨Nat.le_refl _, hnext ▸ hroom, rfl⟩
  have hinside {index : Nat} {t : Text} (ht : t.IsAt index o.space) : index < o.space.docs.length := by
    obtain ⟨doc, hdoc, -⟩ := ht
    exact (List.getElem?_eq_some_iff.mp hdoc).1
  refine ⟨_, by rw [Opening.file, hf]; exact congrArg (Except.map _) hregister, ?_⟩
  constructor
  · exact h.orderly.register hregister
  · exact hnext
  · rw [htexts]
    refine List.rel_append (h.opened.imp ?_) (.cons ⟨rfl, ?_⟩ .nil)
    · rintro file t ⟨hcontent, ht⟩
      refine ⟨hcontent, ht.imp fun doc hdoc => ⟨?_, hdoc.2⟩⟩
      rw [List.getElem?_append_left (hinside ht)]
      exact hdoc.1
    · exact ⟨_, List.getElem?_concat_length, ⟨rfl, rfl⟩, rfl, rfl⟩
  · simp only [List.map_append, h.indices, List.map_cons, List.map_nil, List.length_append,
      List.length_singleton, List.range_succ]
  · simp [h.report, SourceFile.readError?, hf]

end Opening

end SchemaScan.CommandLine
