import UtxoWire.Main
import UtxoWire.Proofs.Identity
import UtxoWire.Transaction.Draft
import UtxoWire.Proofs.Narrowing
import UtxoWire.Proofs.Transaction.Encodable
import UtxoWire.Proofs.RoundTrip
import UtxoWire.Proofs.History
import UtxoWire.Proofs.Transaction.Values
import UtxoWire.Proofs.CommandLine.Check
import UtxoWire.Proofs.ObjectArray.Sorting
import UtxoWire.Proofs.Transaction.Draft
import UtxoWire.Proofs.Hex
import UtxoWire.Proofs.Json.Text
import UtxoWire.Proofs.Json.Value
import UtxoWire.Proofs.Json.Reader
import UtxoWire.Proofs.Json.Printer
import UtxoWire.Proofs.Json.Form
import UtxoWire.Proofs.Json.Entities
import UtxoWire.Proofs.CommandLine.Descriptions
import UtxoWire.Proofs.Failures
import UtxoWire.Proofs.Transaction.DoubleSpend
import UtxoWire.Proofs.InBounds
import UtxoWire.Proofs.Transaction.Layers
import UtxoWire.Proofs.Transaction.Parameters
import UtxoWire.Proofs.Json.RoundTrip
import UtxoWire.Proofs.ObjectArray.Rules
import UtxoWire.Proofs.Normalisation
import UtxoWire.Proofs.Transaction.Admissible
import UtxoWire.Proofs.Transaction.ErrorPaths
import UtxoWire.Proofs.ObjectArray.Attempts
import UtxoWire.Proofs.Validator.Composition
import UtxoWire.Proofs.Validator.Calls
import UtxoWire.Proofs.Validator.Repetitions
import UtxoWire.Proofs.Validator.RunningSum
import UtxoWire.Proofs.ObjectArray.StableSort
import UtxoWire.Proofs.ObjectArray.Writing
import UtxoWire.Proofs.ObjectArray.RunningMaximum
import UtxoWire.Proofs.Varint.Groups
import UtxoWire.Proofs.Varint.Writing
import UtxoWire.Proofs.Json.HexFields
