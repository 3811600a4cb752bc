import SchemaScan.Main
import SchemaScan.Stream.Sink
import SchemaScan.Source.SharedSpace
import SchemaScan.Proofs.Text.Runes
import SchemaScan.Proofs.Scan.Passage
import SchemaScan.Proofs.Scan.Spans
import SchemaScan.Stream.Schedule
import SchemaScan.Proofs.Stream.Answers
import SchemaScan.Proofs.Stream.Progress
import SchemaScan.Proofs.Stream.Calls
import SchemaScan.Proofs.Stream.Sessions
import SchemaScan.Schema.Piece
import SchemaScan.Schema.Syntax
import SchemaScan.Schema.Writing
import SchemaScan.Proofs.Schema.Reads
import SchemaScan.Proofs.Schema.Literals
import SchemaScan.Proofs.Schema.Tokens
import SchemaScan.Proofs.Schema.Series
import SchemaScan.Proofs.Schema.Values
import SchemaScan.Proofs.Schema.Directives
import SchemaScan.Proofs.Schema.Members
import SchemaScan.Proofs.Schema.Definitions
import SchemaScan.Proofs.Schema.Source
import SchemaScan.Proofs.Schema.Documents
import SchemaScan.Scan.Descent
import SchemaScan.Proofs.Scan.Moves
import SchemaScan.Proofs.Scan.Words
import SchemaScan.Proofs.Scan.Simulation
import SchemaScan.Proofs.Scan.Routines
import SchemaScan.Proofs.Scan.Phases
import SchemaScan.Proofs.Source.Placement
import SchemaScan.Proofs.Source.Searches
import SchemaScan.Proofs.Source.SharedSpaces
import SchemaScan.Proofs.Source.Registrations
import SchemaScan.Proofs.Scan.Comments
import SchemaScan.Proofs.Scan.Turns
import SchemaScan.Proofs.Source.Lookups
import SchemaScan.Proofs.Schema.Nesting
import SchemaScan.Proofs.Scan.Expectations
import SchemaScan.Proofs.Scan.Conformance
import SchemaScan.Proofs.Scan.Omissions
import SchemaScan.Proofs.Scan.Gaps
import SchemaScan.Proofs.Scan.CommentItems
import SchemaScan.Proofs.Schema.Enumerations
import SchemaScan.Proofs.Text.LineEndings
import SchemaScan.Proofs.Scan.LineEndings
import SchemaScan.Proofs.Text.Continuations
import SchemaScan.Proofs.Scan.Continuations
import SchemaScan.Proofs.Scan.Concatenation
import SchemaScan.Scan.Motion
import SchemaScan.Proofs.Source.LineStarts
import SchemaScan.Proofs.Scan.Sight
import SchemaScan.Proofs.Scan.LineTables
import SchemaScan.Proofs.Stream.Locations
import SchemaScan.CommandLine.Crew
import SchemaScan.Proofs.Stream.Harvests
import SchemaScan.Proofs.CommandLine.Lines
import SchemaScan.Proofs.CommandLine.Summaries
import SchemaScan.Proofs.CommandLine.Crews
import SchemaScan.Proofs.CommandLine.Openings
import SchemaScan.Proofs.CommandLine.Jobs
import SchemaScan.Proofs.CommandLine.Dumps
import SchemaScan.Proofs.Source.Edits
import SchemaScan.Proofs.Stream.Liveness
import SchemaScan.Proofs.Text.Lossy
import SchemaScan.Proofs.Scan.Readings
import SchemaScan.Proofs.Scan.Strings
import SchemaScan.Proofs.Scan.Refusals
import SchemaScan.Proofs.Schema.Listings
import SchemaScan.Proofs.Scan.Types
import SchemaScan.Proofs.Schema.TypeForms
import SchemaScan.Proofs.Scan.Numbers
import SchemaScan.Proofs.Scan.Marks
import SchemaScan.Proofs.Scan.Keywords
import SchemaScan.Proofs.Scan.Spellings
import SchemaScan.Proofs.Text.Lookahead
import SchemaScan.Proofs.Scan.Lookahead
import SchemaScan.Proofs.Source.Overrides
import SchemaScan.Proofs.Source.LineLocations
import SchemaScan.Proofs.Source.JoinedLines
import SchemaScan.Proofs.Source.LineOverrides
import SchemaScan.Proofs.Source.Walks
import SchemaScan.Proofs.Scan.Decoding
import SchemaScan.Proofs.Scan.QualifiedNames
import SchemaScan.Proofs.Scan.Histories
import SchemaScan.Proofs.Scan.Backups
import SchemaScan.Proofs.Scan.Places
