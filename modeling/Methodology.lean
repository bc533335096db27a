import Methodology.Main
import Methodology.ValueError
import Methodology.Proofs.Text.Digits
import Methodology.Proofs.Text.Trim
import Methodology.Proofs.Text.Case
import Methodology.Proofs.Uuid.RoundTrip
import Methodology.Proofs.Instant.Calendar
import Methodology.Proofs.Instant.RoundTrip
import Methodology.Proofs.Json.Layout
import Methodology.Proofs.Json.RoundTrip
import Methodology.Proofs.Entry.WellFormed
import Methodology.Proofs.Entry.Made
import Methodology.Proofs.Entry.RoundTrip
import Methodology.Proofs.Json.Fields
import Methodology.Proofs.Vocabulary.Consistent
import Methodology.Proofs.Vocabulary.Outcome
import Methodology.Proofs.Vocabulary.RoundTrip
import Methodology.Proofs.Entry.Leaves
import Methodology.Proofs.Entry.YamlRoundTrip
import Methodology.Proofs.Vocabulary.YamlRoundTrip
import Methodology.Proofs.Vocabulary.Insertion
import Methodology.Proofs.Entry.Changes
import Methodology.Proofs.Instant.Reread
import Methodology.Proofs.Vocabulary.Accepted
import Methodology.Proofs.Entry.Reread
import Methodology.Proofs.Vocabulary.Reread
import Methodology.Proofs.Json.Written
import Methodology.Proofs.Record.Held
import Methodology.Proofs.Vocabulary.Written
import Methodology.Proofs.Record.Grammar
import Methodology.Proofs.Entry.Grammar
import Methodology.Proofs.Vocabulary.Mended
import Methodology.Proofs.Vocabulary.Order
import Methodology.Proofs.Vocabulary.Lookup
import Methodology.Proofs.Uuid.Spelling
import Methodology.Proofs.Vocabulary.Spelled
import Methodology.Proofs.Vocabulary.Drawn
import Methodology.Proofs.Json.Steps
import Methodology.Proofs.Record.Streamed
import Methodology.Proofs.Entry.Streamed
import Methodology.Proofs.Entry.TextRoundTrip
import Methodology.Proofs.Entry.Interleaved
import Methodology.Proofs.Record.Converted
import Methodology.Proofs.Entry.Converted
import Methodology.Proofs.Instant.Spelling
import Methodology.Proofs.Instant.Canonical
import Methodology.Proofs.Vocabulary.Latest
import Methodology.Proofs.Uuid.Seeded
import Methodology.Proofs.Vocabulary.Minted
import Methodology.Proofs.Text.Lines
import Methodology.Proofs.Record.Messages
import Methodology.Proofs.Yaml.Shown
import Methodology.Proofs.Vocabulary.Displayed
import Methodology.Proofs.CommandLine.Report
import Methodology.Proofs.Vocabulary.Located
import Methodology.Proofs.Yaml.Conversion
import Methodology.Proofs.CommandLine.Composed
import Methodology.Proofs.MimeType
import Methodology.Proofs.FilePath
import Methodology.Proofs.Entry.Literals
import Methodology.Proofs.Record.Faults
import Methodology.Proofs.Vocabulary.Faults
