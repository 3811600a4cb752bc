import SchemaScan.CommandLine.Report

/-! # Lines of a report

What is printed about an item stands on one line: its place, its kind and its quoted text hold no line feed,
unless the name of the file does.
-/
namespace SchemaScan

/-- The text has no line feed in it. -/
def IsInline (s : String) : Prop := '\n' ∉ s.toList

instance (s : String) : Decidable (IsInline s) := inferInstanceAs (Decidable ('\n' ∉ s.toList))

variable {s t : String}

theorem IsInline.append (hs : IsInline s) (ht : IsInline t) : IsInline (s ++ t) := by
  rw [IsInline, String.toList_append, List.mem_append, not_or]
  exact ⟨hs, ht⟩

namespace Quoted

end Quoted

namespace CommandLine

end CommandLine

end SchemaScan
