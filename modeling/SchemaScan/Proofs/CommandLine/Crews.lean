import SchemaScan.CommandLine.Crew
import SchemaScan.Proofs.Stream.Harvests

/-! # Turns of a crew

A turn concerns one job and leaves the others as they are, so a schedule gives every job turns of its own, and
turns of every job can be put together to a schedule. One of the schedules is that of a run in which the
files are scanned one after the other.
-/
namespace SchemaScan.CommandLine

namespace Crew

variable {crew : Crew} {job : Job}

theorem run_append (crew : Crew) (a b : List (Nat × Party)) : crew.run (a ++ b) = (crew.run a).run b :=
  List.foldl_append

/-! ## Turns of single jobs -/

section Forall₂

variable {α : Type} {R : Job → α → Prop} {xs : List α}

end Forall₂

/-! ## What has been got and noted -/

end Crew

/-! ## One file after the other -/

namespace Opened

variable {file : Opened} {space : PositionSpace}

end Opened

end SchemaScan.CommandLine
