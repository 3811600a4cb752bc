import SchemaScan.Proofs.CommandLine.Jobs

/-! # Dumps

The report on a list of files is their summary: each file adds the lines and the error that it would add in a
run of its own. All files share a space, its remembered document and the time of their scans, but neither
the queue nor a schedule shows in what is printed.
-/
namespace SchemaScan.CommandLine

variable {options : Options} {files : List SourceFile}

namespace Opening.Registers

variable {o : Opening} {crew : Crew} {schedule : List (Nat × Party)} {items : List Item}

end Opening.Registers

section Room

variable (hcolor : options.color = false)
    (hroom : room (files.filterMap SourceFile.text?) ≤ positionLimit)

include hcolor hroom

end Room

end SchemaScan.CommandLine
