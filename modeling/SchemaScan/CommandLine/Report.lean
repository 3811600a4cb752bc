import SchemaScan.CommandLine.Options
import SchemaScan.Source.PositionSpace

/-! # Reports

A report says what is printed about a list of files: the items of every file that could be read,
one to a line, and the errors. First come the files that could not be read; the items and lexical
errors of the others follow in the order of the command line. All files share one position space.
-/
namespace SchemaScan.CommandLine

/-! ## Colours -/

/-- The escape character that starts a control sequence for the terminal. -/
def escape : String := "\x1b["

/-- Text between two control sequences. -/
def between (on off : String) (text : String) : String :=
  escape ++ on ++ "m" ++ text ++ escape ++ off ++ "m"

def dim : String → String := between "2" "0"
def bold : String → String := between "1" "0"
def red : String → String := between "31" "39"
def green : String → String := between "32" "39"
def yellow : String → String := between "33" "39"
def cyan : String → String := between "36" "39"

/-! ## Lines -/

/-- The column for the kinds is this wide. -/
def kindWidth : Nat := 11

/-- A text filled up with spaces. -/
def padded (width : Nat) (text : String) : String :=
  text ++ String.ofList (List.replicate (width - text.length) ' ')

/-- A kind in its column. Colours tell reserved words, the end of the input, literals and all the
rest apart. -/
def kindCell (color : Bool) (kind : Kind) : String :=
  let cell := padded kindWidth kind.label
  if !color then cell
  else if kind.isKeyword then bold (cyan cell)
  else if kind = .eof then dim cell
  else if kind.isLiteral then green cell
  else yellow cell

/-- The line for an item: where it is, what it is, and what it says. -/
def itemLine (color : Bool) (location : Location) (item : Item) : String :=
  let place := if color then dim location.render else location.render
  place ++ "  " ++ kindCell color item.kind ++ "  " ++ Quoted.bare item.text ++ "\n"

/-- The line for an error. -/
def errorLine (color : Bool) (message : String) : String :=
  (if color then bold (red "Error") else "Error") ++ ": " ++ message ++ "\n"

/-! ## Files -/

/-- Why a file cannot be read. -/
inductive ReadFailure where
  | notFound
  | isDirectory
  | notDirectory
  | other (reason : String)
  deriving DecidableEq, Repr

/-- What is said about a file that cannot be read. -/
def ReadFailure.message : ReadFailure → String
  | notFound => "No such file or directory (os error 2)"
  | isDirectory => "Is a directory (os error 21)"
  | notDirectory => "Not a directory (os error 20)"
  | other reason => reason

/-- A file of the command line and what reading it gave. -/
structure SourceFile where
  name : String
  content : Except ReadFailure (List UInt8)

/-- What a run prints, and whether everything went well. -/
structure Report where
  failures : Nat := 0
  out : String := ""
  err : String := ""
  deriving DecidableEq, Repr

namespace Report

/-- The exit code. -/
def exitCode (r : Report) : Nat := if r.failures = 0 then 0 else 1

/-- Adds an error. -/
def fail (r : Report) (color : Bool) (message : String) : Report :=
  { r with failures := r.failures + 1, err := r.err ++ errorLine color message }

/-- Adds an item of a document of the space. -/
def item (r : Report) (color : Bool) (space : PositionSpace) (item : Item) : Report :=
  let location := space.location item.pos true
  match item.error? with
  | some e => r.fail color (location.render ++ ": " ++ e.message)
  | none => { r with out := r.out ++ itemLine color location item }

end Report

/-- A file that could be read: its document and its content. -/
structure Opened where
  /-- The index of the document in the space. -/
  index : Nat
  content : List UInt8

/-- The files that have been read so far. -/
structure Opening where
  space : PositionSpace := PositionSpace.empty
  opened : List Opened := []
  report : Report := {}

namespace Opening

/-- Registers a file that could be read, and reports one that could not. -/
def file (o : Opening) (color : Bool) (f : SourceFile) : Except RegistrationError Opening :=
  match f.content with
  | .error failure =>
    .ok { o with report :=
      o.report.fail color ("cannot read " ++ f.name ++ ": " ++ failure.message) }
  | .ok content =>
    (o.space.register f.name none content.length).map fun space =>
      { o with space, opened := o.opened ++ [⟨o.space.docs.length, content⟩] }

/-- Registers all files. A file for which there are no positions left ends the run. -/
def all (color : Bool) : Opening → List SourceFile → Except Report Opening
  | o, [] => .ok o
  | o, f :: rest =>
    match o.file color f with
    | .ok o => all color o rest
    | .error e => .error (o.report.fail color e.message)

end Opening

/-- The items of a file, as the reader of its pipeline gets them, and the space with the lines that
have been read. -/
def fileItems (options : Options) (space : PositionSpace) (file : Opened) :
    List Item × PositionSpace :=
  match space.docs[file.index]? with
  | none => ([], space)
  | some doc =>
    match Pipeline.start doc file.content { comments := options.comments } options.queue with
    | .error _ => ([], space)
    | .ok pipeline =>
      let (items, pipeline) := pipeline.takeAll
      (items, space.modify file.index fun _ => pipeline.document)

/-- The items of all files, in order, and the space with all lines that have been read. -/
def allItems (options : Options) : PositionSpace → List Opened → List Item × PositionSpace
  | space, [] => ([], space)
  | space, file :: rest =>
    let (items, space) := fileItems options space file
    let (more, space) := allItems options space rest
    (items ++ more, space)

/-- The report on a list of files. -/
def dump (options : Options) (files : List SourceFile) : Report :=
  match Opening.all options.color {} files with
  | .error report => report
  | .ok o =>
    let (items, space) := allItems options o.space o.opened
    items.foldl (fun r item => r.item options.color space item) o.report

/-! ## Version and help -/

/-- The line that names the program and its version. -/
def versionLine : String := "gqlc-lex 0.1.0\n"

/-- How the program is called. -/
def helpText : String :=
  "gqlc-lex - Dump the token stream of GraphQL IDL documents\n\n" ++
  "Usage: gqlc-lex [OPTIONS] <FILES>...\n\n" ++
  "Options:\n" ++
  "  -c, --comments   Report # comments as COMMENT tokens\n" ++
  "      --queue <N>  Number of tokens a lexer may run ahead of the printer\n" ++
  "      --no-color   Disable colored output\n" ++
  "  -v, --verbose    Enable verbose output\n" ++
  "  -h, --help       Print help\n" ++
  "  -V, --version    Print version\n"

end SchemaScan.CommandLine
