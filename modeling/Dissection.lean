import Dissection.Bytes.Hex
import Dissection.Dissector.Session
import Dissection.Header.Fields
import Dissection.Settings
import Dissection.Proofs.SessionInvariant
import Dissection.Proofs.Filling
import Dissection.Proofs.FillingRecords
import Dissection.Proofs.LayerShape
import Dissection.Proofs.Announcement
import Dissection.Proofs.Arrangement
import Dissection.Proofs.Dispatch
import Dissection.Proofs.CutBytes
import Dissection.Proofs.CutChain
import Dissection.Proofs.Truncation
import Dissection.Proofs.Nesting
import Dissection.Proofs.Successors
import Dissection.Proofs.Completeness
import Dissection.Proofs.RoundTrip
import Dissection.Proofs.Consultation
import Dissection.Proofs.Position
import Dissection.Proofs.Deepening
import Dissection.Proofs.Embedding
import Dissection.Proofs.Agreement
import Dissection.Proofs.Tagging
import Dissection.Proofs.CallProtocol
import Dissection.Proofs.Forgetting
import Dissection.Proofs.Location
import Dissection.Proofs.Fragments
import Dissection.Proofs.Fragmentation
import Dissection.Proofs.Refusals
import Dissection.Proofs.Binding
import Dissection.Proofs.Accounting
import Dissection.Proofs.Termination
import Dissection.Proofs.Hushing
import Dissection.Proofs.CommonFront
import Dissection.Proofs.Payload
import Dissection.Proofs.Reading
import Dissection.Proofs.Listing
import Dissection.Proofs.OptionWalks
import Dissection.Proofs.ListenerReport
import Dissection.Proofs.GreHeader
import Dissection.Proofs.DepthLookup
import Dissection.Proofs.Packing
import Dissection.Proofs.Identifiers
import Dissection.Proofs.Checked.Session
