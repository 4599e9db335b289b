import Tagwire.Bytes
import Tagwire.Cipher.Block
import Tagwire.Cipher.Tag
import Tagwire.Codec
import Tagwire.Codec.Conversion
import Tagwire.Codec.Error
import Tagwire.Codec.Options
import Tagwire.Codec.Store
import Tagwire.Command
import Tagwire.Command.Error
import Tagwire.Command.Line
import Tagwire.Command.Listing
import Tagwire.Compilation
import Tagwire.Compilation.Catalog
import Tagwire.Compilation.Cycle
import Tagwire.Compilation.Error
import Tagwire.Compilation.Layout
import Tagwire.Definition
import Tagwire.Digest.Sha256
import Tagwire.Document
import Tagwire.Entries
import Tagwire.Envelope
import Tagwire.Files
import Tagwire.Json.Parser
import Tagwire.Json.Printer
import Tagwire.Json.Shape
import Tagwire.Json.Value
import Tagwire.Kind
import Tagwire.Main
import Tagwire.Mapping.Reader
import Tagwire.Mapping.Scalar
import Tagwire.Mapping.WellKnown
import Tagwire.Mapping.Writer
import Tagwire.Name
import Tagwire.Number.Binary
import Tagwire.Number.Reading
import Tagwire.Number.Shortest
import Tagwire.Proofs.Acceptance
import Tagwire.Proofs.Base64
import Tagwire.Proofs.Catalog
import Tagwire.Proofs.Cipher.Block
import Tagwire.Proofs.Cipher.Tag
import Tagwire.Proofs.Codec.BareEnvelope
import Tagwire.Proofs.Codec.Constructed
import Tagwire.Proofs.Codec.Conversion
import Tagwire.Proofs.Codec.Decodable
import Tagwire.Proofs.Codec.Envelope
import Tagwire.Proofs.Codec.Framing
import Tagwire.Proofs.Codec.Fresh
import Tagwire.Proofs.Codec.Inheritance
import Tagwire.Proofs.Codec.Leniency
import Tagwire.Proofs.Codec.Lifecycle
import Tagwire.Proofs.Codec.Overriding
import Tagwire.Proofs.Codec.Passage
import Tagwire.Proofs.Codec.Peeking
import Tagwire.Proofs.Codec.PlainBytes
import Tagwire.Proofs.Codec.Predictive
import Tagwire.Proofs.Codec.Presence
import Tagwire.Proofs.Codec.Resending
import Tagwire.Proofs.Codec.RoundTrip
import Tagwire.Proofs.Codec.TagField
import Tagwire.Proofs.Command
import Tagwire.Proofs.Compilation.Cycles
import Tagwire.Proofs.Compilation.Documents
import Tagwire.Proofs.Compilation.Rejection
import Tagwire.Proofs.Compilation.Termination
import Tagwire.Proofs.Entries
import Tagwire.Proofs.Except
import Tagwire.Proofs.Files
import Tagwire.Proofs.Hex
import Tagwire.Proofs.Json.Floats
import Tagwire.Proofs.Json.Size
import Tagwire.Proofs.Layout
import Tagwire.Proofs.Layout.Extension
import Tagwire.Proofs.Layout.Inheritance
import Tagwire.Proofs.Layout.Messages
import Tagwire.Proofs.Lineage
import Tagwire.Proofs.Mapping.Dynamic
import Tagwire.Proofs.Mapping.Faithful
import Tagwire.Proofs.Mapping.FieldMask
import Tagwire.Proofs.Mapping.Fields
import Tagwire.Proofs.Mapping.FirstField
import Tagwire.Proofs.Mapping.Flat
import Tagwire.Proofs.Mapping.Kept
import Tagwire.Proofs.Mapping.Layouts
import Tagwire.Proofs.Mapping.Lenient
import Tagwire.Proofs.Mapping.Linked
import Tagwire.Proofs.Mapping.Members
import Tagwire.Proofs.Mapping.Moments
import Tagwire.Proofs.Mapping.Normal
import Tagwire.Proofs.Mapping.Packed
import Tagwire.Proofs.Mapping.Pruned
import Tagwire.Proofs.Mapping.Returning
import Tagwire.Proofs.Mapping.RoundTrip
import Tagwire.Proofs.Mapping.Scalar
import Tagwire.Proofs.Mapping.Settings
import Tagwire.Proofs.Mapping.Shown
import Tagwire.Proofs.Mapping.SpecialForm
import Tagwire.Proofs.Mapping.Spellings
import Tagwire.Proofs.Mapping.Structures
import Tagwire.Proofs.Mapping.Taking
import Tagwire.Proofs.Mapping.Typed
import Tagwire.Proofs.Mapping.TypedBytes
import Tagwire.Proofs.Mapping.Typing
import Tagwire.Proofs.Naming
import Tagwire.Proofs.Naming.Conversion
import Tagwire.Proofs.Naming.Stems
import Tagwire.Proofs.Number.Binary
import Tagwire.Proofs.Number.Nearest
import Tagwire.Proofs.Record
import Tagwire.Proofs.References
import Tagwire.Proofs.Schema.Bundled
import Tagwire.Proofs.Schema.Compiled
import Tagwire.Proofs.Schema.Document
import Tagwire.Proofs.Schema.Formed
import Tagwire.Proofs.Schema.Forms
import Tagwire.Proofs.Schema.Lines
import Tagwire.Proofs.Schema.Linking
import Tagwire.Proofs.Schema.Loaded
import Tagwire.Proofs.Schema.Loading
import Tagwire.Proofs.Schema.Lookup
import Tagwire.Proofs.Schema.Names
import Tagwire.Proofs.Schema.Numbering
import Tagwire.Proofs.Schema.Plain
import Tagwire.Proofs.Schema.Reading
import Tagwire.Proofs.Schema.Registered
import Tagwire.Proofs.Schema.Rendering
import Tagwire.Proofs.Schema.Resolution
import Tagwire.Proofs.Schema.Statements
import Tagwire.Proofs.Schema.Tokens
import Tagwire.Proofs.Schema.Visibility
import Tagwire.Proofs.Schema.Wired
import Tagwire.Proofs.Text
import Tagwire.Proofs.Time.Date
import Tagwire.Proofs.Time.Duration
import Tagwire.Proofs.Time.Fraction
import Tagwire.Proofs.Time.Timestamp
import Tagwire.Proofs.Wire.Alike
import Tagwire.Proofs.Wire.Decoded
import Tagwire.Proofs.Wire.Delimited
import Tagwire.Proofs.Wire.Depth
import Tagwire.Proofs.Wire.FirstField
import Tagwire.Proofs.Wire.Length
import Tagwire.Proofs.Wire.Map
import Tagwire.Proofs.Wire.Passage
import Tagwire.Proofs.Wire.Reading
import Tagwire.Proofs.Wire.Scalar
import Tagwire.Proofs.Wire.Skipping
import Tagwire.Proofs.Wire.Typing
import Tagwire.Proofs.Wire.Writing
import Tagwire.Record
import Tagwire.Registry
import Tagwire.Schema.Bundled
import Tagwire.Schema.Declaration
import Tagwire.Schema.Linking
import Tagwire.Schema.Loading
import Tagwire.Schema.Lookup
import Tagwire.Schema.Options
import Tagwire.Schema.Reading
import Tagwire.Schema.Statement
import Tagwire.Schema.Token
import Tagwire.Schema.Type
import Tagwire.Text.Base64
import Tagwire.Text.Blank
import Tagwire.Text.Hex
import Tagwire.Text.Invisible
import Tagwire.Text.Quoted
import Tagwire.Text.Utf8
import Tagwire.Time.Date
import Tagwire.Time.Duration
import Tagwire.Time.Fraction
import Tagwire.Time.Timestamp
import Tagwire.Value
import Tagwire.Wire.Reader
import Tagwire.Wire.Scalar
import Tagwire.Wire.Varint
import Tagwire.Wire.Writer
import Tagwire.Yaml
import Tagwire.Yaml.Scalar
