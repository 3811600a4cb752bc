import SchemaScan.Proofs.Stream.Locations
import SchemaScan.Proofs.Stream.Sessions

/-! # Harvests

A reader that takes all items gets those of its source, and the document has been read up to the start of
each. A reader whose worker works only as far as it has to is no exception: its moves follow a schedule.
-/
namespace SchemaScan

namespace Pipeline

variable {doc : Document} {source : List UInt8} {mode : Mode} {capacity : Nat} {p q : Pipeline}

theorem exists_start (h : source.length = doc.size) (mode : Mode) (capacity : Nat) :
    ∃ p, start doc source mode capacity = .ok p := by
  rw [start, if_pos h]
  exact ⟨_, rfl⟩

/-- Before the first move everything is on its way. -/
theorem fresh_of_start (h : start doc source mode capacity = .ok p) :
    p.terminal = none ∧ p.isExhausted = false ∧ p.isOpen = true ∧
      p.pending = (Trace.ofSource mode source).items doc.base := by
  unfold start at h
  split at h
  · cases h
    exact ⟨rfl, rfl, rfl, Worker.pending_start ..⟩
  · cases h

end Pipeline

namespace Session

/-! ## What a finished reader has -/

section Finished

variable {doc : Document} {source : List UInt8} {mode : Mode} {capacity : Nat} {p : Pipeline}

theorem holds_all (h : Pipeline.start doc source mode capacity = .ok p) (schedule : List Party) :
    ((start p [.takeAll]).run schedule).Holds ((Trace.ofSource mode source).items doc.base)
      [.items ((Trace.ofSource mode source).items doc.base)] := by
  have hall := Trace.items_closed mode source doc.base
  obtain ⟨hterminal, hexhausted, hopen, hpending⟩ := Pipeline.fresh_of_start h
  have hstart := holds_start [.takeAll] hopen hterminal hexhausted hpending hall
  simp only [Bookmark.answers, Bookmark.answer, Bookmark.first, Bookmark.left, hall.length_pos,
    List.drop_zero] at hstart
  exact holds_run hall hstart schedule

/-- A reader that has got all items has got those of the source, and the start of each has been read. -/
theorem harvest (h : Pipeline.start doc source mode capacity = .ok p) (hbase : 0 < doc.base)
    {schedule : List Party} {items : List Item}
    (ha : ((start p [.takeAll]).run schedule).answers = [.items items]) :
    items = (Trace.ofSource mode source).items doc.base ∧
      ∃ seen, ((start p [.takeAll]).run schedule).pipeline.document = doc.readLines source seen ∧
        ∀ i ∈ items, i.pos ≤ doc.base + seen := by
  have hprefix := answers_prefix (holds_all h schedule)
  rw [ha] at hprefix
  obtain ⟨⟩ := hprefix.eq_of_length rfl
  obtain ⟨hreads, -⟩ := reads_run (reads_start h [.takeAll]) schedule
  refine ⟨rfl, ((start p [.takeAll]).run schedule).pipeline.worker.seen, ?_, ?_⟩
  · rw [Pipeline.document, hreads.initial_eq, hreads.source_eq]
  · intro i hi
    have hhanded : i ∈ ((start p [.takeAll]).run schedule).handed := by
      rw [handed, ha, List.mem_append]
      exact .inr (by simpa [Answer.given] using hi)
    obtain ⟨_, _, hspans⟩ := Trace.exists_spans hi
    have hpos := hspans.pos
    exact ((hreads.handed i hhanded).resolve_left (by omega)).2

end Finished

/-! ## Readers without a schedule -/

/-- Some moves lead from one session to the other. -/
def Reaches (s t : Session) : Prop := ∃ schedule, s.run schedule = t

variable {s t u : Session} {p q : Pipeline}

theorem Reaches.refl (s : Session) : s.Reaches s := ⟨[], rfl⟩

theorem Reaches.trans (hst : s.Reaches t) (htu : t.Reaches u) : s.Reaches u := by
  obtain ⟨first, rfl⟩ := hst
  obtain ⟨second, rfl⟩ := htu
  exact ⟨first ++ second, run_append ..⟩

end Session

end SchemaScan
