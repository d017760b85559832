import Attest.Document.Presentation
import Attest.Json.Datum
import Attest.Proofs.Json.Drafts
import Attest.Proofs.Json.MemberOrder
import Attest.Proofs.Document.Attempts
import Attest.Proofs.Document.Entries
import Attest.Proofs.Document.Independence
import Attest.Proofs.Document.Requests
import Attest.Proofs.Document.Runs
import Attest.Proofs.Integrity.Binding
import Attest.Proofs.Document.PresentationReading
import Attest.Proofs.Document.Returned
import Attest.Proofs.Document.CreatedCredentials
import Attest.Proofs.Document.PresentationRoundTrip
import Attest.Proofs.Integrity.Transport
import Attest.Proofs.Document.ReadableProofs
import Attest.Proofs.Document.AddedProof
import Attest.Proofs.Document.Embedding
import Attest.Proofs.Document.ProofMember
import Attest.Proofs.Json.TypedData
import Attest.Proofs.Json.FixedPoint
import Attest.Proofs.Document.EmbeddedTimes
import Attest.Proofs.Calendar.Offsets
import Attest.Proofs.Calendar.TextOrder
import Attest.Proofs.Key.Multikey
import Attest.Proofs.Document.OneOrMany
import Attest.Proofs.Key.P256
