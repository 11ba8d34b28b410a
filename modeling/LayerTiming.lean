import LayerTiming.Capture.Facts
import LayerTiming.Capture.File
import LayerTiming.Capture.Line
import LayerTiming.Capture.Recording
import LayerTiming.Files.Output
import LayerTiming.Files.Path
import LayerTiming.Files.System
import LayerTiming.Invocation.Basic
import LayerTiming.Invocation.Run
import LayerTiming.Invocation.Words
import LayerTiming.Json.Reader
import LayerTiming.Json.Record
import LayerTiming.Json.Scientific
import LayerTiming.Json.Token
import LayerTiming.Json.Value
import LayerTiming.Json.Writer
import LayerTiming.Main
import LayerTiming.Number.Binary
import LayerTiming.Number.Decimal
import LayerTiming.Number.Double
import LayerTiming.Presentation.Chart
import LayerTiming.Presentation.Palette
import LayerTiming.Presentation.Summary
import LayerTiming.Presentation.Table
import LayerTiming.Proofs.Capture.Announcements
import LayerTiming.Proofs.Capture.BootCut
import LayerTiming.Proofs.Capture.EventLines
import LayerTiming.Proofs.Capture.Joining
import LayerTiming.Proofs.Capture.LastBoot
import LayerTiming.Proofs.Capture.LineKinds
import LayerTiming.Proofs.Capture.Markers
import LayerTiming.Proofs.Capture.Padding
import LayerTiming.Proofs.Capture.Printing
import LayerTiming.Proofs.Capture.Segments
import LayerTiming.Proofs.Capture.Sizes
import LayerTiming.Proofs.Files.Destinations
import LayerTiming.Proofs.Files.Extensions
import LayerTiming.Proofs.Files.Names
import LayerTiming.Proofs.Files.Reach
import LayerTiming.Proofs.Files.Writes
import LayerTiming.Proofs.Invocation.Effective
import LayerTiming.Proofs.Items
import LayerTiming.Proofs.Json.Grammar
import LayerTiming.Proofs.Json.Lexing
import LayerTiming.Proofs.Json.Members
import LayerTiming.Proofs.Json.Numbers
import LayerTiming.Proofs.Json.Parsing
import LayerTiming.Proofs.Json.Precision
import LayerTiming.Proofs.Json.Readable
import LayerTiming.Proofs.Json.Reading
import LayerTiming.Proofs.Json.Records
import LayerTiming.Proofs.Json.Spacing
import LayerTiming.Proofs.Number.Bounds
import LayerTiming.Proofs.Number.Counters
import LayerTiming.Proofs.Number.Decimals
import LayerTiming.Proofs.Number.Doubles
import LayerTiming.Proofs.Number.Errors
import LayerTiming.Proofs.Number.HalfEven
import LayerTiming.Proofs.Number.Magnitudes
import LayerTiming.Proofs.Number.Nearest
import LayerTiming.Proofs.Number.Order
import LayerTiming.Proofs.Number.Rounding
import LayerTiming.Proofs.Number.Shortest
import LayerTiming.Proofs.Number.Texts
import LayerTiming.Proofs.Number.Values
import LayerTiming.Proofs.Presentation.ChartPanels
import LayerTiming.Proofs.Presentation.ChartReading
import LayerTiming.Proofs.Presentation.ChartRegions
import LayerTiming.Proofs.Presentation.ChartTags
import LayerTiming.Proofs.Presentation.Coloring
import LayerTiming.Proofs.Presentation.RowReading
import LayerTiming.Proofs.Presentation.SummaryLines
import LayerTiming.Proofs.Presentation.SummaryRows
import LayerTiming.Proofs.Presentation.TableNumbers
import LayerTiming.Proofs.Presentation.TableReading
import LayerTiming.Proofs.Presentation.TableTotals
import LayerTiming.Proofs.Presentation.TickTexts
import LayerTiming.Proofs.Ranking.Coverage
import LayerTiming.Proofs.Ranking.Layers
import LayerTiming.Proofs.Ranking.Operations
import LayerTiming.Proofs.Ranking.Shares
import LayerTiming.Proofs.Ranking.Sorting
import LayerTiming.Proofs.Report.Bounds
import LayerTiming.Proofs.Report.ByName
import LayerTiming.Proofs.Report.Parts
import LayerTiming.Proofs.Report.Precision
import LayerTiming.Proofs.Report.Reasons
import LayerTiming.Proofs.Report.RoundTrip
import LayerTiming.Proofs.Session.Acceptance
import LayerTiming.Proofs.Session.Beside
import LayerTiming.Proofs.Session.Commands
import LayerTiming.Proofs.Session.Delivery
import LayerTiming.Proofs.Session.Restraint
import LayerTiming.Proofs.Session.Survival
import LayerTiming.Proofs.Session.Written
import LayerTiming.Proofs.Settings.ReadBack
import LayerTiming.Proofs.Text.Cutting
import LayerTiming.Proofs.Text.Digits
import LayerTiming.Proofs.Text.Encoding
import LayerTiming.Proofs.Text.Escaping
import LayerTiming.Proofs.Text.Gaps
import LayerTiming.Proofs.Text.Grouping
import LayerTiming.Proofs.Text.MarkupOutline
import LayerTiming.Proofs.Text.MarkupReading
import LayerTiming.Proofs.Text.Numerals
import LayerTiming.Proofs.Text.Records
import LayerTiming.Proofs.Text.Search
import LayerTiming.Proofs.Timing.Alignment
import LayerTiming.Proofs.Timing.Bounds
import LayerTiming.Proofs.Timing.Operations
import LayerTiming.Proofs.Timing.Reasons
import LayerTiming.Proofs.Timing.RunSets
import LayerTiming.Proofs.Timing.Strictness
import LayerTiming.Proofs.Toml.Lines
import LayerTiming.Proofs.Toml.Scalars
import LayerTiming.Proofs.Toml.Tables
import LayerTiming.Ranking
import LayerTiming.Report.Basic
import LayerTiming.Report.Decode
import LayerTiming.Report.Encode
import LayerTiming.Report.File
import LayerTiming.Session.Analysis
import LayerTiming.Session.Basic
import LayerTiming.Session.Inspection
import LayerTiming.Session.Instant
import LayerTiming.Settings
import LayerTiming.Text.CharClass
import LayerTiming.Text.Columns
import LayerTiming.Text.Csv
import LayerTiming.Text.Lines
import LayerTiming.Text.Markup
import LayerTiming.Text.Numeral
import LayerTiming.Text.Utf8
import LayerTiming.Timing.Clock
import LayerTiming.Timing.Profile
import LayerTiming.Toml.Quoted
import LayerTiming.Toml.Reader
import LayerTiming.Toml.Scalar
import LayerTiming.Toml.Value
