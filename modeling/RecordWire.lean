import RecordWire.Layout.Family
import RecordWire.Log.Logger
import RecordWire.Main
import RecordWire.Proofs.Wire.Shortage
import RecordWire.Session.Step
import RecordWire.Proofs.Layout.Induction
import RecordWire.Proofs.Wire.Locality
import RecordWire.Proofs.Codec.Canonical
import RecordWire.Proofs.Codec.Entries
import RecordWire.Proofs.Codec.Retraction
import RecordWire.Proofs.Wire.Strict
import RecordWire.Proofs.Wire.Stream
import RecordWire.Proofs.Codec.Reordering
import RecordWire.Proofs.Codec.SortedKeys
import RecordWire.Proofs.Registry.Run
import RecordWire.Proofs.Codec.Size
import RecordWire.Proofs.Codec.InPlace
import RecordWire.Proofs.Wire.Lenient
import RecordWire.Proofs.Sorting.Defined
import RecordWire.Proofs.Codec.PlainData
import RecordWire.Proofs.Codec.PlainErrors
import RecordWire.Proofs.Schema.Position
import RecordWire.Proofs.Schema.Rendering
import RecordWire.Proofs.Registry.Acyclic
import RecordWire.Proofs.Registry.Batches
import RecordWire.Proofs.Schema.Grammar
import RecordWire.Proofs.Service.BackToBack
import RecordWire.Proofs.Wire.Limited
import RecordWire.Proofs.Codec.Overwriting
import RecordWire.Proofs.Schema.Comments
import RecordWire.Proofs.Registry.Usable
import RecordWire.Proofs.Codec.Payload
import RecordWire.Proofs.Service.Whole
import RecordWire.Proofs.Registry.Encodable
import RecordWire.Proofs.Service.Inheritance
import RecordWire.Proofs.CommandLine.Listing
import RecordWire.Proofs.Codec.Numbers
import RecordWire.Proofs.Config.Assignment
import RecordWire.Proofs.Log.Configuration
import RecordWire.Proofs.CommandLine.Failing
import RecordWire.Proofs.Codec.Integers
import RecordWire.Proofs.Codec.Singles
import RecordWire.Proofs.Codec.LeastSize
