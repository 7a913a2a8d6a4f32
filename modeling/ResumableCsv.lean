import ResumableCsv.Backward.LastBatch
import ResumableCsv.Backward.Reader
import ResumableCsv.Backward.Tail
import ResumableCsv.Batch
import ResumableCsv.Cell.Value
import ResumableCsv.Column
import ResumableCsv.CommandLine.Argument
import ResumableCsv.CommandLine.Command
import ResumableCsv.CommandLine.Delimiter
import ResumableCsv.CommandLine.Program
import ResumableCsv.CommandLine.Run
import ResumableCsv.Decimal.Binary
import ResumableCsv.Decimal.Layout
import ResumableCsv.Decimal.Read
import ResumableCsv.Decimal.Shortest
import ResumableCsv.Defaults
import ResumableCsv.Enrich.Basic
import ResumableCsv.Enrich.Plan
import ResumableCsv.Enrich.Write
import ResumableCsv.Error
import ResumableCsv.Fault
import ResumableCsv.Gzip.Basic
import ResumableCsv.Gzip.Checksum
import ResumableCsv.Gzip.Inflate
import ResumableCsv.Headers.Basic
import ResumableCsv.Headers.Projection
import ResumableCsv.Headers.RowView
import ResumableCsv.Json.Basic
import ResumableCsv.Json.Number
import ResumableCsv.Json.Parser
import ResumableCsv.Main
import ResumableCsv.NulBytes.Policy
import ResumableCsv.NulBytes.Stream
import ResumableCsv.Outcome
import ResumableCsv.Path
import ResumableCsv.RangeSet
import ResumableCsv.Reader.Basic
import ResumableCsv.Reader.Open
import ResumableCsv.Reader.Source
import ResumableCsv.Record.Render
import ResumableCsv.Record.Scan
import ResumableCsv.Record.Sniff
import ResumableCsv.Resume.Context
import ResumableCsv.Resume.Indexed
import ResumableCsv.Resume.LastCell
import ResumableCsv.Resume.Output
import ResumableCsv.Resume.Paged
import ResumableCsv.Resume.Resumer
import ResumableCsv.Resume.RowCount
import ResumableCsv.Selection.Basic
import ResumableCsv.Selection.Parser
import ResumableCsv.Selection.Printer
import ResumableCsv.Selection.Resolve
import ResumableCsv.Text.Basic
import ResumableCsv.Text.Encoding
import ResumableCsv.Text.Numeral
import ResumableCsv.Text.Quoted
import ResumableCsv.Text.Unprintable
import ResumableCsv.Text.Utf8
import ResumableCsv.Workspace
import ResumableCsv.Writer.Basic
import ResumableCsv.Writer.Output
import ResumableCsv.Proofs.Record.Document
import ResumableCsv.Proofs.Text.Numeral
import ResumableCsv.Proofs.Text.Utf8
import ResumableCsv.Proofs.Reader.Build
import ResumableCsv.Proofs.Backward.Batches
import ResumableCsv.Proofs.Backward.Mirror
import ResumableCsv.Proofs.Enrich.Counted
import ResumableCsv.Proofs.Enrich.Cuts
import ResumableCsv.Proofs.Enrich.Indexed
import ResumableCsv.Proofs.Enrich.Paged
import ResumableCsv.Proofs.Gzip.Stored
import ResumableCsv.Proofs.Writer.Records
import ResumableCsv.Proofs.Writer.Calls
import ResumableCsv.Proofs.Resume.Output
import ResumableCsv.Proofs.Resume.Continue
import ResumableCsv.Proofs.Enrich.Matched
import ResumableCsv.Proofs.Record.Quotes
import ResumableCsv.Proofs.Record.Torn
import ResumableCsv.Proofs.Reader.Breaks
import ResumableCsv.Proofs.Enrich.Stores
import ResumableCsv.Proofs.Enrich.Finish
import ResumableCsv.Proofs.Enrich.Torn
import ResumableCsv.Proofs.Enrich.Mended
import ResumableCsv.Proofs.Selection.Grammar
import ResumableCsv.Proofs.Selection.Written
import ResumableCsv.Proofs.Selection.Inversion
import ResumableCsv.Proofs.Backward.Offsets
import ResumableCsv.Proofs.Text.Split
import ResumableCsv.Proofs.Reader.Items
import ResumableCsv.Proofs.Reader.Looks
import ResumableCsv.Proofs.Reader.Multiplexed
import ResumableCsv.Proofs.Resume.Quiet
import ResumableCsv.Proofs.Enrich.Layout
import ResumableCsv.Proofs.Enrich.Refused
import ResumableCsv.Proofs.Reader.Prebuffered
import ResumableCsv.Proofs.RangeSet.Canonical
import ResumableCsv.Proofs.Backward.Finished
import ResumableCsv.Proofs.Writer.Refused
import ResumableCsv.Proofs.Reader.Built
import ResumableCsv.Proofs.Reader.Renamed
import ResumableCsv.Proofs.Reader.Visits
import ResumableCsv.Proofs.Reader.NulFree
import ResumableCsv.Proofs.NulBytes.Stream
import ResumableCsv.Proofs.Text.Decoded
import ResumableCsv.Proofs.Record.Sniff
import ResumableCsv.Proofs.Backward.Delimiters
import ResumableCsv.Proofs.Reader.Counting
import ResumableCsv.Proofs.Selection.Resolved
import ResumableCsv.Proofs.Headers.Projections
import ResumableCsv.Proofs.Reader.Level
import ResumableCsv.Proofs.Reader.Indexing
import ResumableCsv.Proofs.Headers.Table
import ResumableCsv.Proofs.Reader.Joined
import ResumableCsv.Proofs.Backward.Twins
import ResumableCsv.Proofs.Backward.OpenTail
import ResumableCsv.Proofs.Resume.Found
import ResumableCsv.Proofs.Enrich.Skipped
import ResumableCsv.Proofs.Backward.Chunks
import ResumableCsv.Proofs.NulBytes.InPlace
import ResumableCsv.Proofs.NulBytes.Reads
