import SchemaScan.Stream.Pipeline

/-! # Options of the command line

The arguments are read from left to right. A flag stands alone and stands once; short flags may be
joined behind one dash; `--queue` takes a number, as the next argument or behind an equals sign;
after `--` every argument is a file. A request for the version or for help is met as soon as it is
read, and so is the first mistake.
-/
namespace SchemaScan.CommandLine

/-- What is to be done to which files. -/
structure Options where
  /-- The files in the order of the command line; a file may be named more than once. -/
  files : List String
  comments : Bool := false
  /-- How many items a worker may be ahead. -/
  queue : Nat := Pipeline.defaultCapacity
  color : Bool := true
  verbose : Bool := false
  deriving DecidableEq, Repr

/-- What the arguments ask for. -/
inductive Request where
  /-- Dump the items of files. -/
  | dump (options : Options)
  | version
  | help
  /-- The arguments make no sense. -/
  | misuse
  deriving DecidableEq, Repr

/-- The options that have been read so far. -/
structure Seen where
  files : List String := []
  comments : Bool := false
  queue : Option Nat := none
  noColor : Bool := false
  verbose : Bool := false

/-- The flags. -/
inductive Flag where
  | comments | noColor | verbose | version | help

/-- What an argument leads to. -/
inductive Outcome where
  | go (seen : Seen)
  | done (request : Request)

namespace Seen

/-- Notes a flag, unless it has been seen before. -/
def flag (seen : Seen) : Flag → Outcome
  | .comments => if seen.comments then .done .misuse else .go { seen with comments := true }
  | .noColor => if seen.noColor then .done .misuse else .go { seen with noColor := true }
  | .verbose => if seen.verbose then .done .misuse else .go { seen with verbose := true }
  | .version => .done .version
  | .help => .done .help

/-- Notes a file. A file has a name. -/
def file (seen : Seen) (name : String) : Outcome :=
  if name = "" then .done .misuse else .go { seen with files := seen.files ++ [name] }

/-- A number of 64 bits in decimal digits, with a plus sign in front if one likes. -/
def number? (text : String) : Option Nat :=
  let digits := match text.toList with
    | '+' :: rest => rest
    | digits => digits
  if digits ≠ [] ∧ digits.all Char.isDigit then
    let n := digits.foldl (fun n c => 10 * n + (c.toNat - '0'.toNat)) 0
    if n ≤ positionLimit then some n else none
  else none

/-- Notes the size of the queue, unless it has been seen before. -/
def queueSize (seen : Seen) (text : String) : Outcome :=
  match seen.queue, number? text with
  | none, some n => .go { seen with queue := some n }
  | _, _ => .done .misuse

/-- Notes short flags. -/
def letters (seen : Seen) : List Char → Outcome
  | [] => .go seen
  | c :: rest =>
    let flag? : Option Flag := match c with
      | 'c' => some .comments
      | 'v' => some .verbose
      | 'V' => some .version
      | 'h' => some .help
      | _ => none
    match flag? with
    | none => .done .misuse
    | some f =>
      match seen.flag f with
      | .go seen => letters seen rest
      | .done request => .done request

/-- Notes a long option that stands alone. -/
def long (seen : Seen) (name : List Char) : Outcome :=
  if name = "comments".toList then seen.flag .comments
  else if name = "no-color".toList then seen.flag .noColor
  else if name = "verbose".toList then seen.flag .verbose
  else if name = "version".toList then seen.flag .version
  else if name = "help".toList then seen.flag .help
  else
    match name.span (· ≠ '=') with
    | (option, '=' :: value) =>
      if option = "queue".toList then seen.queueSize (String.ofList value) else .done .misuse
    | _ => .done .misuse

/-- The request that the options make, once all arguments have been read. -/
def request (seen : Seen) : Request :=
  if seen.files = [] then .misuse
  else .dump {
    files := seen.files
    comments := seen.comments
    queue := seen.queue.getD Pipeline.defaultCapacity
    color := !seen.noColor
    verbose := seen.verbose }

/-- Notes the files behind `--`. -/
def onlyFiles (seen : Seen) : List String → Request
  | [] => seen.request
  | name :: rest =>
    match seen.file name with
    | .go seen => onlyFiles seen rest
    | .done request => request

/-- Reads the arguments. -/
def arguments (seen : Seen) : List String → Request
  | [] => seen.request
  | "--queue" :: rest =>
    match rest with
    | [] => .misuse
    | value :: rest =>
      match seen.queueSize value with
      | .go seen => arguments seen rest
      | .done request => request
  | argument :: rest =>
    let outcome? : Option Outcome := match argument.toList with
      | ['-', '-'] => none
      | '-' :: '-' :: name => some (seen.long name)
      | '-' :: c :: cs => some (seen.letters (c :: cs))
      | _ => some (seen.file argument)
    match outcome? with
    | none => onlyFiles seen rest
    | some (.go seen) => arguments seen rest
    | some (.done request) => request

end Seen

/-- What a list of arguments asks for. -/
def Request.ofArguments (arguments : List String) : Request := Seen.arguments {} arguments

end SchemaScan.CommandLine
