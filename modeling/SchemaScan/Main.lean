import SchemaScan.CommandLine.Report

/-! # The program

The program reads the files that it is given and prints the report on them.
-/
open SchemaScan SchemaScan.CommandLine

/-- Reads a file. -/
def readSource (name : String) : IO SourceFile := do
  try
    let bytes ← IO.FS.readBinFile name
    return ⟨name, .ok bytes.toList⟩
  catch
    | .noFileOrDirectory .. => return ⟨name, .error .notFound⟩
    | .inappropriateType .. => return ⟨name, .error .isDirectory⟩
    | e => return ⟨name, .error (.other (toString e))⟩

/-- Prints the report on the files that the arguments name. -/
def main (arguments : List String) : IO UInt32 := do
  match Request.ofArguments arguments with
  | .version =>
    IO.print versionLine
    return 0
  | .help =>
    IO.print helpText
    return 0
  | .misuse =>
    IO.eprint helpText
    return 2
  | .dump options =>
    let report := dump options (← options.files.mapM readSource)
    IO.print report.out
    IO.eprint report.err
    return report.exitCode.toUInt32
