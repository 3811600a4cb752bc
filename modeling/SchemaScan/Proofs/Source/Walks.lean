import Mathlib.Data.List.Perm.Subperm
import SchemaScan.Proofs.Source.SharedSpaces

/-! # Walks over all documents

A walk visits the documents in the order of registration, those that are registered by the visits included.
Whatever the visits do to the space, no document is left out on the way and none is visited twice; the walk
ends behind the last document, or with the first visit that asks for it.
-/
namespace SchemaScan

/-- The document as it was registered, of which nothing has been noted yet. -/
def Document.registered (doc : Document) : Document where
  name := doc.name
  base := doc.base
  size := doc.size

theorem Document.registered_change (doc : Document) (c : Change) :
    (doc.change c).registered = doc.registered := by
  obtain ⟨lines, overrides, hchange⟩ := doc.exists_change_eq c
  rw [hchange]
  rfl

/-! ## Documents in a run -/

theorem Lookup.docs_advance (l : Lookup) (space : PositionSpace) : (l.advance space).2.docs = space.docs := by
  rw [advance]
  split
  · split
    · rfl
    · split <;> rfl
  · split <;> rfl
  · rfl
  · rfl

namespace PositionSpace

/-- The documents as they were registered. -/
def registrations (space : PositionSpace) : List Document := space.docs.map Document.registered

variable {space : PositionSpace}

/-- Every document takes up a position, so there are fewer of them than positions. -/
theorem Orderly.length_lt (h : space.Orderly) : space.docs.length < positionLimit := by
  have hnodup : (space.extents.map Prod.fst).Nodup := by
    refine List.pairwise_map.mpr (h.ordered.imp fun {a b} hab => ?_)
    omega
  have hsubset : space.extents.map Prod.fst ⊆ List.range' 1 (space.next - 1) := fun base hbase => by
    obtain ⟨e, he, rfl⟩ := List.mem_map.mp hbase
    have hfirst := h.positive e he
    have hend := h.end_lt_next he
    exact List.mem_range'_1.mpr (by omega)
  have hlength := (List.Nodup.subperm hnodup hsubset).length_le
  rw [List.length_map, List.length_range', length_extents] at hlength
  have hlimit := h.next_le
  have hpositive : 0 < positionLimit := by decide
  omega

theorem Orderly.nodup_registrations (h : space.Orderly) : space.registrations.Nodup := by
  have hordered := List.pairwise_map.mp h.ordered
  refine List.pairwise_map.mpr (hordered.imp fun {a b} hab heq => ?_)
  have hextent : a.registered.extent = b.registered.extent := congrArg Document.extent heq
  change a.extent = b.extent at hextent
  rw [hextent] at hab
  omega

end PositionSpace

namespace SharedSpace

theorem registrations_move (s : SharedSpace) (m : Move) :
    s.space.registrations <+: (s.move m).space.registrations := by
  cases m with
  | register name base? size =>
    rw [move]
    split
    · rename_i space hr
      obtain ⟨-, -, rfl⟩ := PositionSpace.register_eq_ok_iff.mp hr
      rw [PositionSpace.registrations, PositionSpace.registrations, List.map_append]
      exact List.prefix_append ..
    · exact List.prefix_rfl
  | change index c =>
    have hsame : (s.space.modify index (·.change c)).registrations = s.space.registrations :=
      PositionSpace.map_docs_modify fun doc _ => doc.registered_change c
    rw [move]
    exact hsame ▸ List.prefix_rfl
  | look pos => exact List.prefix_rfl
  | advance lookup =>
    rw [move]
    split
    · rename_i l _
      have hsame : (l.advance s.space).2.registrations = s.space.registrations :=
        congrArg (List.map Document.registered) (l.docs_advance s.space)
      exact hsame ▸ List.prefix_rfl
    · exact List.prefix_rfl

/-- No run takes a document away or moves one. -/
theorem registrations_run (s : SharedSpace) (moves : List Move) :
    s.space.registrations <+: (s.run moves).space.registrations := by
  induction moves generalizing s with
  | nil => exact List.prefix_rfl
  | cons m moves ih => exact (s.registrations_move m).trans (ih (s.move m))

end SharedSpace

/-! ## Visits -/

namespace PositionSpace

/-- Notes the documents that are visited, each with the answer of the visit. -/
def Visit.noting {σ : Type} (visit : Visit σ) : Visit (List (Document × Bool) × σ) :=
  fun doc space (log, state) =>
    let (more, space, state) := visit doc space state
    (more, space, log ++ [(doc, more)], state)

/-- What a visit does to the space consists of moves: documents are registered and changed, and positions
looked up. -/
def Visit.MakesMoves {σ : Type} (visit : Visit σ) : Prop :=
  ∀ doc space state, ∃ moves, (visit doc space state).2.1 = (SharedSpace.run ⟨space, []⟩ moves).space

variable {σ : Type} {visit : Visit σ} {space : PositionSpace} {log : List (Document × Bool)}

theorem Visit.MakesMoves.orderly (h : visit.MakesMoves) (ho : space.Orderly) (doc : Document) (state : σ) :
    (visit doc space state).2.1.Orderly := by
  obtain ⟨moves, hmoves⟩ := h doc space state
  rw [hmoves]
  exact (SharedSpace.consistent_run ⟨ho, fun l hl => absurd hl List.not_mem_nil⟩ moves).orderly

theorem Visit.MakesMoves.registrations (h : visit.MakesMoves) (doc : Document) (space : PositionSpace)
    (state : σ) : space.registrations <+: (visit doc space state).2.1.registrations := by
  obtain ⟨moves, hmoves⟩ := h doc space state
  rw [hmoves]
  exact SharedSpace.registrations_run ⟨space, []⟩ moves

/-! ## Walks -/

/-- The documents that have been visited, as `view` shows them, are the first ones of those that there are
now. -/
def Visited {α : Type} (view : Document → α) (log : List (Document × Bool)) (docs : List Document) : Prop :=
  (log.map fun entry => view entry.1) <+: docs.map view

/-- The visits are those up to the first one that answers `false`, or up to that of the last document. -/
def Complete (log : List (Document × Bool)) (docs : List Document) : Prop :=
  log.length = (log.findIdx? fun entry => !entry.2).elim docs.length (· + 1)

/-- What holds between the visits of a walk that goes on. -/
structure Underway {α : Type} (view : Document → α) (log : List (Document × Bool))
    (space : PositionSpace) : Prop where
  orderly : space.Orderly
  visited : Visited view log space.docs
  more : ∀ entry ∈ log, entry.2 = true

section Walks

variable {α : Type} {view : Document → α} {docs later : List Document} {doc : Document} {state : σ}

theorem Visited.length_le (h : Visited view log docs) : log.length ≤ docs.length := by
  have hlength := List.IsPrefix.length_le h
  rwa [List.length_map, List.length_map] at hlength

theorem Visited.concat (h : Visited view log docs) (hdoc : docs[log.length]? = some doc)
    (hgrows : docs.map view <+: later.map view) (more : Bool) :
    Visited view (log ++ [(doc, more)]) later := by
  have htake := List.prefix_iff_eq_take.mp h
  rw [List.length_map] at htake
  have hnext : (log ++ [(doc, more)]).map (fun entry => view entry.1) =
      (docs.map view).take (log.length + 1) := by
    rw [List.take_add_one, List.getElem?_map, hdoc, ← htake, List.map_append]
    rfl
  rw [Visited, hnext]
  exact (List.take_prefix ..).trans hgrows

namespace Underway

theorem findIdx?_eq_none (h : Underway view log space) : (log.findIdx? fun entry => !entry.2) = none := by
  rw [List.findIdx?_eq_none_iff]
  intro entry hentry
  rw [h.more entry hentry]
  rfl

/-- A visit that asks for more. -/
theorem concat (h : Underway view log space) (hdoc : space.docs[log.length]? = some doc)
    {after : PositionSpace} (ho : after.Orderly) (hgrows : space.docs.map view <+: after.docs.map view) :
    Underway view (log ++ [(doc, true)]) after where
  orderly := ho
  visited := h.visited.concat hdoc hgrows true
  more := by
    intro entry hentry
    rcases List.mem_append.mp hentry with hentry | hentry
    · exact h.more entry hentry
    · obtain rfl := List.mem_singleton.mp hentry
      rfl

/-- A walk that has come behind the last document. -/
theorem complete_of_none (h : Underway view log space) (hnone : space.docs[log.length]? = none) :
    Complete log space.docs := by
  rw [Complete, h.findIdx?_eq_none]
  exact Nat.le_antisymm h.visited.length_le (List.getElem?_eq_none_iff.mp hnone)

/-- A visit that does not ask for more. -/
theorem complete_concat (h : Underway view log space) (doc : Document) (docs : List Document) :
    Complete (log ++ [(doc, false)]) docs := by
  rw [Complete, List.findIdx?_append, h.findIdx?_eq_none, List.length_append]
  simp

end Underway

/-- What a walk does from some document on. The bound on the visits is never met, as there are not so many
documents. -/
theorem visitFrom_noting (hvisit : visit.MakesMoves)
    (hview : ∀ doc space state, space.docs.map view <+: (visit doc space state).2.1.docs.map view)
    {fuel : Nat} (hfuel : positionLimit ≤ fuel + log.length) (h : Underway view log space) :
    ∃ after all final,
      visitFrom visit.noting fuel log.length space (log, state) = (after, all, final) ∧
      visitFrom visit fuel log.length space state = (after, final) ∧
      after.Orderly ∧ Visited view all after.docs ∧ Complete all after.docs := by
  induction fuel generalizing space log state with
  | zero =>
    have hlength := h.orderly.length_lt
    have hle := h.visited.length_le
    omega
  | succ fuel ih =>
    simp only [visitFrom]
    cases hdoc : space.docs[log.length]? with
    | none => exact ⟨_, _, _, rfl, rfl, h.orderly, h.visited, h.complete_of_none hdoc⟩
    | some doc =>
      have hgrows := hview doc space state
      have hnext := hvisit.orderly h.orderly doc state
      simp only [Visit.noting]
      generalize visit doc space state = answer at hgrows hnext ⊢
      obtain ⟨more, next, state⟩ := answer
      cases more with
      | false =>
        exact ⟨_, _, _, rfl, rfl, hnext, h.visited.concat hdoc hgrows false,
          h.complete_concat doc next.docs⟩
      | true =>
        have hlength : (log ++ [(doc, true)]).length = log.length + 1 := List.length_append
        rw [← hlength]
        exact ih (by omega) (h.concat hdoc hnext hgrows)

theorem visitAll_noting (hvisit : visit.MakesMoves)
    (hview : ∀ doc space state, space.docs.map view <+: (visit doc space state).2.1.docs.map view)
    (ho : space.Orderly) (state : σ) :
    ∃ after log final, visitAll visit.noting space ([], state) = (after, log, final) ∧
      visitAll visit space state = (after, final) ∧
      after.Orderly ∧ Visited view log after.docs ∧ Complete log after.docs := by
  have hfuel : positionLimit ≤ positionLimit + ([] : List (Document × Bool)).length := Nat.le_refl _
  exact visitFrom_noting hvisit hview hfuel ⟨ho, List.nil_prefix, List.forall_mem_nil _⟩

end Walks

/-- Whatever the visits do, the documents that are visited are the first ones of those that there are in the
end, and each of them is visited once. The walk ends with the first visit that does not ask for more, or with
the last document. -/
theorem visitAll_visits {σ : Type} {visit : Visit σ} (hvisit : visit.MakesMoves)
    (moves : List SharedSpace.Move) (state : σ) :
    let space := (SharedSpace.empty.run moves).space
    ∃ after log final, visitAll visit.noting space ([], state) = (after, log, final) ∧
      visitAll visit space state = (after, final) ∧
      Visited Document.registered log after.docs ∧ (log.map (·.1.registered)).Nodup ∧
      Complete log after.docs ∧
      ((∀ doc space state, space.docs <+: (visit doc space state).2.1.docs) →
        log.map (·.1) <+: after.docs) := by
  intro space
  have ho := (SharedSpace.consistent_run SharedSpace.consistent_empty moves).orderly
  obtain ⟨after, log, final, hlog, hfinal, hafter, hvisited, hcomplete⟩ :=
    visitAll_noting hvisit hvisit.registrations ho state
  refine ⟨after, log, final, hlog, hfinal, hvisited, ?_, hcomplete, fun hkept => ?_⟩
  · exact hafter.nodup_registrations.sublist (List.IsPrefix.sublist hvisited)
  · have hshown : ∀ doc space state,
        space.docs.map (fun doc => doc) <+: (visit doc space state).2.1.docs.map (fun doc => doc) :=
      fun doc space state => (hkept doc space state).map _
    obtain ⟨_, _, _, hsame, -, -, hvisited, -⟩ := visitAll_noting hvisit hshown ho state
    rw [hlog] at hsame
    cases hsame
    rwa [Visited, List.map_id'] at hvisited

/-- The first visit registers a document, and the visit of that one ends the walk, although more have been
registered. -/
theorem visitAll_visits_registered :
    let visit : Visit Nat := fun doc space count =>
      (decide (doc.name ≠ "c"), (SharedSpace.run ⟨space, []⟩ [.look 2, .advance 0, .change 1 (.line 1),
        .register (if count = 0 then "c" else "d") none doc.size]).space, count + 1)
    let moves := [.register "a" none 3, .register "b" (some 9) 4]
    let space := (SharedSpace.empty.run moves).space
    visit.MakesMoves ∧
      ∃ after log final, visitAll visit.noting space ([], 0) = (after, log, final) ∧
        visitAll visit space 0 = (after, final) ∧
        Visited Document.registered log after.docs ∧ (log.map (·.1.registered)).Nodup ∧
        Complete log after.docs ∧
        ((∀ doc space state, space.docs <+: (visit doc space state).2.1.docs) →
          log.map (·.1) <+: after.docs) := by
  intro visit moves space
  have hvisit : visit.MakesMoves := fun doc space count => ⟨_, rfl⟩
  exact ⟨hvisit, visitAll_visits hvisit moves 0⟩

end PositionSpace

end SchemaScan
