import Interchange.Main
import Interchange.Wire.Transfer
import Interchange.Proofs.Schema.Compilation
import Interchange.Proofs.Wire.Tags
import Interchange.Proofs.Wire.RoundTrip
import Interchange.Proofs.Wire.TypeCodec
import Interchange.Proofs.Schema.DependencyOrder
import Interchange.Proofs.Schema.Records
import Interchange.Proofs.Wire.Written
import Interchange.Proofs.Wire.VoidElement
import Interchange.Proofs.Schema.WellFormed
import Interchange.Proofs.Schema.ContentHash
import Interchange.Proofs.Schema.Layout
import Interchange.Proofs.Wire.Versions
import Interchange.Proofs.Wire.Upgrade
import Interchange.Proofs.Wire.Decoded
import Interchange.Proofs.Wire.Accepted
import Interchange.Proofs.Schema.Acceptance
import Interchange.Proofs.Schema.Spans
import Interchange.Proofs.Wire.Arrival
import Interchange.Proofs.Wire.Descent
import Interchange.Proofs.Schema.Validity
import Interchange.Proofs.Schema.Guarded
import Interchange.Proofs.Schema.Site
import Interchange.Proofs.Schema.Safety
import Interchange.Proofs.Wire.Elision
import Interchange.Proofs.Wire.Lockstep
import Interchange.Proofs.Schema.Outward
import Interchange.Proofs.Wire.Exchange
import Interchange.Proofs.Wire.Entries
import Interchange.Proofs.Schema.Lexemes
import Interchange.Proofs.Schema.Segmentation
import Interchange.Proofs.Schema.OpenComment
import Interchange.Proofs.Schema.Viable
import Interchange.Proofs.Wire.Room
import Interchange.Proofs.Wire.Transparency
import Interchange.Proofs.Schema.Naming
import Interchange.Proofs.Wire.Views
import Interchange.Proofs.Schema.Rewording
import Interchange.Proofs.Wire.Rounds
import Interchange.Proofs.Wire.Groups
import Interchange.Proofs.Schema.FullNames
import Interchange.Proofs.Source.Encodings
import Interchange.Proofs.Wire.Integers
import Interchange.Proofs.Wire.Delivery
import Interchange.Proofs.Schema.Forest
import Interchange.Proofs.Source.Paths
import Interchange.Proofs.Source.Listing
