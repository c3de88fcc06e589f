import BinaryRecord.Bytes
import BinaryRecord.Machine
import BinaryRecord.Quadword
import BinaryRecord.Floating.Shape
import BinaryRecord.Floating.Shortest
import BinaryRecord.Text.Utf8
import BinaryRecord.Text.Numeral
import BinaryRecord.Text.Printable
import BinaryRecord.Text.Quoted
import BinaryRecord.Value
import BinaryRecord.Fault
import BinaryRecord.Storage
import BinaryRecord.Codec.Number
import BinaryRecord.Codec.Text
import BinaryRecord.Codec
import BinaryRecord.FieldType
import BinaryRecord.Layout
import BinaryRecord.Unpacking
import BinaryRecord.Packing
import BinaryRecord.Compiled
import BinaryRecord.Proofs.Placement
import BinaryRecord.Proofs.Rounding
import BinaryRecord.Proofs.Utf8
import BinaryRecord.Proofs.Walk
import BinaryRecord.Proofs.Window
import BinaryRecord.Proofs.Edits
import BinaryRecord.Proofs.Conversions
import BinaryRecord.Proofs.Encoding
import BinaryRecord.Proofs.Filling
import BinaryRecord.Proofs.Frame
import BinaryRecord.Proofs.Decoding
import BinaryRecord.Proofs.Inverses
import BinaryRecord.Proofs.RoundTrip
import BinaryRecord.Proofs.Canonical
import BinaryRecord.Proofs.Concatenation
import BinaryRecord.Proofs.Bounds
import BinaryRecord.Proofs.Refusal
import BinaryRecord.Proofs.Pieces
import BinaryRecord.Proofs.NormalForm
import BinaryRecord.Proofs.WrittenPadding
import BinaryRecord.Proofs.Locality
import BinaryRecord.Proofs.Contents
import BinaryRecord.Proofs.Mirror
import BinaryRecord.Proofs.Relocation
import BinaryRecord.Proofs.Juxtaposition
import BinaryRecord.Proofs.Gaps
import BinaryRecord.Proofs.Slices
import BinaryRecord.Proofs.BeforeStart
import BinaryRecord.Proofs.Leniency
import BinaryRecord.Proofs.TextFields
import BinaryRecord.Proofs.Truncation
import BinaryRecord.Proofs.Missing
import BinaryRecord.Proofs.Calls
import BinaryRecord.Proofs.Words
import BinaryRecord.Proofs.Starts
import BinaryRecord.Proofs.Continuation
import BinaryRecord.Proofs.Integers
import BinaryRecord.Proofs.WellFormed
import BinaryRecord.Proofs.Nearest
import BinaryRecord.Proofs.Singles
import BinaryRecord.Proofs.Actions
