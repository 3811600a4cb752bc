import SchemaScan.Proofs.CommandLine.Crews
import SchemaScan.Proofs.CommandLine.Openings
import SchemaScan.Proofs.Source.Searches

/-! # What a crew has got

Every job scans the document of its own text. Once all readers have got their items, the space in which the
lines have been noted locates each of the items in its text, whatever the other jobs have read.
-/
namespace SchemaScan.CommandLine

/-- A document that has been read up to an item tells where the item is in the text. -/
theorem Text.Fits.location {t : Text} {doc : Document} {space : PositionSpace} {index seen : Nat} {item : Item}
    (h : t.Fits doc) (ho : space.Orderly)
    (hnoted : space.docs[index]? = some (doc.readLines t.content seen)) (hbase : 0 < doc.base)
    (hin : item.pos ≤ t.content.length) (hread : item.pos ≤ seen) :
    space.location (doc.base + item.pos) true = t.locate item := by
  have hcovers : (doc.readLines t.content seen).covers (doc.base + item.pos) = true := by
    simp [Document.covers, Document.readLines, Document.noteLines, ← h.size, hin]
  have hlocation := ho.location_of_covers hnoted hcovers true
  rw [h.fresh.location_readLines h.size hbase hin hread, h.name] at hlocation
  exact (Except.ok.inj hlocation).symm

namespace Job

/-- The job scans the document that the space has for the text, and has had some turns. -/
def Scans (options : Options) (space : PositionSpace) (job : Job) (t : Text) : Prop :=
  ∃ doc p, space.docs[job.index]? = some doc ∧ t.Fits doc ∧
    Pipeline.start doc t.content { comments := options.comments } options.queue = .ok p ∧
    ∃ turns, job.session = (Session.start p [.takeAll]).run turns

/-- The reader has got the items of the text, and the space knows their places. -/
def Tells (comments : Bool) (space : PositionSpace) (job : Job) (t : Text) : Prop :=
  ∃ base, job.items? = some ((t.items comments).map (Item.rebase 0 base)) ∧
    ∀ item ∈ t.items comments, space.location (base + item.pos) true = t.locate item

variable {options : Options} {space : PositionSpace} {job : Job} {t : Text}

theorem Scans.run (h : job.Scans options space t) (turns : List Party) :
    (job.run turns).Scans options space t := by
  obtain ⟨doc, p, hdoc, hfits, hp, before, hsession⟩ := h
  refine ⟨doc, p, hdoc, hfits, hp, before ++ turns, ?_⟩
  rw [Session.run_append, ← hsession]
  rfl

theorem items?_eq_some_iff {items : List Item} :
    job.items? = some items ↔ job.session.answers = [.items items] := by
  unfold items?
  split
  · rename_i h
    simp [h]
  · rename_i h
    simpa using h items

/-- A job whose lines have been noted in the space tells where its items are. -/
theorem Scans.tells (h : job.Scans options space t) (ho : space.Orderly) {noted : PositionSpace}
    (hnoted : noted.docs[job.index]? = some job.session.pipeline.document) (horderly : noted.Orderly)
    (hsome : job.items?.isSome = true) : job.Tells options.comments noted t := by
  obtain ⟨doc, p, hdoc, hfits, hp, turns, hsession⟩ := h
  obtain ⟨items, hitems⟩ := Option.isSome_iff_exists.mp hsome
  have hbase : 0 < doc.base := ho.positive _ (List.mem_map_of_mem (List.mem_of_getElem? hdoc))
  have hanswers := items?_eq_some_iff.mp hitems
  rw [hsession] at hanswers hnoted
  obtain ⟨rfl, seen, hdocument, hseen⟩ := Session.harvest hp hbase hanswers
  rw [hdocument] at hnoted
  rw [← Trace.items_rebase _ 0 doc.base] at hitems hseen
  refine ⟨doc.base, hitems, ?_⟩
  intro item hitem
  obtain ⟨start, stop, hspans⟩ := Trace.exists_spans hitem
  have hin : item.pos ≤ t.content.length := by
    have := hspans.pos
    have := hspans.ordered
    have := hspans.inside
    omega
  have hread : item.pos ≤ seen := by
    have := hseen _ (List.mem_map_of_mem hitem)
    simp only [Item.rebase] at this
    omega
  exact hfits.location horderly hnoted hbase hin hread

end Job

namespace Crew

variable {options : Options} {space : PositionSpace} {crew : Crew} {texts : List Text}

end Crew

end SchemaScan.CommandLine
