import TradeWire.Admin.Route
import TradeWire.Admin.View
import TradeWire.Command.Files
import TradeWire.Command.Flag
import TradeWire.Command.Help
import TradeWire.Command.Invocation
import TradeWire.Command.Run
import TradeWire.Command.Spec
import TradeWire.Flow.Condition
import TradeWire.Flow.Pick
import TradeWire.Flow.Tree
import TradeWire.Layout.Basic
import TradeWire.Layout.Compile
import TradeWire.Layout.Run
import TradeWire.Layout.Size
import TradeWire.Layout.Symbols
import TradeWire.Logging.Settings
import TradeWire.Main
import TradeWire.Markup.Document
import TradeWire.Markup.Element
import TradeWire.Markup.NameChar
import TradeWire.Markup.Token
import TradeWire.Number.Decimal
import TradeWire.Number.Literal
import TradeWire.Number.Word
import TradeWire.Proofs.Confinement
import TradeWire.Proofs.Data.Related
import TradeWire.Proofs.Guarantees
import TradeWire.Proofs.Layout.Compiled
import TradeWire.Proofs.Layout.Extent
import TradeWire.Proofs.Layout.Offsets
import TradeWire.Proofs.Layout.Runs
import TradeWire.Proofs.Layout.Settled
import TradeWire.Proofs.Layout.Soundness
import TradeWire.Proofs.Layout.WellFormed
import TradeWire.Proofs.Number.Words
import TradeWire.Proofs.Record.Lookups
import TradeWire.Proofs.Record.Reachable
import TradeWire.Proofs.Record.Shape
import TradeWire.Proofs.Schema.Accepted
import TradeWire.Proofs.Schema.Templates
import TradeWire.Proofs.Wire.Bounds
import TradeWire.Proofs.Wire.Decoding
import TradeWire.Proofs.Wire.Locality
import TradeWire.Proofs.Wire.Members
import TradeWire.Proofs.Wire.Packing
import TradeWire.Proofs.Wire.Positions
import TradeWire.Proofs.Wire.Prefixes
import TradeWire.Proofs.Wire.Reading
import TradeWire.Proofs.Wire.Recovery
import TradeWire.Proofs.Wire.Reproduction
import TradeWire.Proofs.Wire.RoundTrip
import TradeWire.Proofs.Wire.Splicing
import TradeWire.Proofs.Wire.Succession
import TradeWire.Proofs.Wire.Unpacking
import TradeWire.Proofs.Wire.Validity
import TradeWire.Proofs.Wire.Writing
import TradeWire.Protocol.Basic
import TradeWire.Protocol.Frame
import TradeWire.Protocol.Validate
import TradeWire.Record.Access
import TradeWire.Record.Basic
import TradeWire.Record.Dump
import TradeWire.Record.Path
import TradeWire.Registry.Basic
import TradeWire.Registry.Walk
import TradeWire.Schema.Error
import TradeWire.Schema.Model
import TradeWire.Schema.Reader
import TradeWire.Schema.Sample
import TradeWire.Session.Backoff
import TradeWire.Session.Client
import TradeWire.Session.Demo
import TradeWire.Session.Options
import TradeWire.Session.Outgoing
import TradeWire.Session.Serve
import TradeWire.Settings.Duration
import TradeWire.Settings.File
import TradeWire.Settings.Load
import TradeWire.Settings.Template
import TradeWire.Settings.Toml.Dialect
import TradeWire.Settings.Toml.Expression
import TradeWire.Settings.Toml.Selective
import TradeWire.Settings.Toml.Text
import TradeWire.Settings.Toml.Thorough
import TradeWire.Settings.Toml.Word
import TradeWire.Text.Blank
import TradeWire.Text.CodePoint
import TradeWire.Text.Columns
import TradeWire.Text.Hex
import TradeWire.Text.LowerCase
import TradeWire.Text.Printable
import TradeWire.Text.Quoted
import TradeWire.Text.Utf8
import TradeWire.Wire.Buffer
import TradeWire.Wire.Pack
import TradeWire.Wire.Unpack
import TradeWire.Proofs.Registry.Headers
import TradeWire.Proofs.Registry.Dispatch
import TradeWire.Proofs.Registry.Payloads
import TradeWire.Proofs.Record.Numbers
import TradeWire.Proofs.Session.Stamps
import TradeWire.Proofs.Protocol.Frames
import TradeWire.Proofs.Session.Drafts
import TradeWire.Proofs.Session.Sending
import TradeWire.Proofs.Session.Output
import TradeWire.Proofs.Session.Dropping
import TradeWire.Proofs.Session.Requests
import TradeWire.Proofs.Record.Fresh
import TradeWire.Proofs.Acceptance
import TradeWire.Proofs.Defaults
import TradeWire.Proofs.Record.Symbols
import TradeWire.Proofs.Enumerations
import TradeWire.Proofs.Layout.Constants
import TradeWire.Proofs.Wire.Setting
import TradeWire.Proofs.Constants
import TradeWire.Proofs.Text.ByteOrder
import TradeWire.Proofs.Schema.Closed
import TradeWire.Proofs.Flow.Reflection
import TradeWire.Proofs.Flow.Compiled
import TradeWire.Proofs.Protocol.Streams
import TradeWire.Proofs.Lengths
import TradeWire.Proofs.Record.Trimming
import TradeWire.Proofs.Trimming
import TradeWire.Proofs.Layout.References
import TradeWire.Proofs.Layout.Measured
import TradeWire.Proofs.Layout.Building
import TradeWire.Proofs.Sizes
import TradeWire.Proofs.Record.Places
import TradeWire.Proofs.Record.Resolution
import TradeWire.Proofs.Number.Ranges
import TradeWire.Proofs.RawValues
import TradeWire.Proofs.SymbolNames
import TradeWire.Proofs.Number.Decimals
import TradeWire.Proofs.ScaledNumbers
import TradeWire.Proofs.Record.Spelling
import TradeWire.Proofs.Lenses
import TradeWire.Proofs.Number.Integers
import TradeWire.Proofs.Flow.Printing
import TradeWire.Proofs.Flow.Evaluation
import TradeWire.Proofs.Flow.Choices
import TradeWire.Proofs.Session.Echoing
import TradeWire.Proofs.Settings.Conversion
import TradeWire.Proofs.Layout.Wrapping
import TradeWire.Proofs.Wire.Inside
import TradeWire.Proofs.Registry.Offsets
import TradeWire.Proofs.Schema.Tables
import TradeWire.Proofs.Schema.Usages
import TradeWire.Proofs.Protocol.Mandatory
import TradeWire.Proofs.Protocol.Checking
import TradeWire.Proofs.Record.Naming
import TradeWire.Proofs.Completeness
import TradeWire.Proofs.Settings.Agreement
import TradeWire.Proofs.Settings.Written
import TradeWire.Proofs.Settings.Numerals
import TradeWire.Proofs.Settings.Reading
import TradeWire.Proofs.Settings.Loading
