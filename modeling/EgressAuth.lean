import EgressAuth.Interception.Session
import EgressAuth.Setup.Application
import EgressAuth.Proofs.SortedMap
import EgressAuth.Proofs.Text.ByteOrder
import EgressAuth.Proofs.Text.Pieces
import EgressAuth.Proofs.Text.LetterCase
import EgressAuth.Proofs.Text.Percent
import EgressAuth.Proofs.Decimal.Signed
import EgressAuth.Proofs.Json.Literals
import EgressAuth.Proofs.Json.Combinators
import EgressAuth.Proofs.Json.Containers
import EgressAuth.Proofs.Json.Grammar
import EgressAuth.Proofs.Json.Recognition
import EgressAuth.Proofs.Json.Lexemes
import EgressAuth.Proofs.Json.SkippedValues
import EgressAuth.Proofs.Json.Records
import EgressAuth.Proofs.Json.Values
import EgressAuth.Proofs.Cache.Entry
import EgressAuth.Proofs.Cache.Control
import EgressAuth.Proofs.Cache.Interpretation
import EgressAuth.Proofs.Cache.WriteCount
import EgressAuth.Proofs.Cache.Id
import EgressAuth.Proofs.Interception.Outcomes
import EgressAuth.Proofs.Interception.Run
import EgressAuth.Proofs.Interception.Laws
import EgressAuth.Proofs.Interception.Lifecycle
import EgressAuth.Proofs.Interception.Provenance
import EgressAuth.Proofs.Interception.CacheSafety
import EgressAuth.Proofs.Interception.AuthTypes
import EgressAuth.Proofs.Interception.WriteBack
import EgressAuth.Proofs.Interception.Replay
import EgressAuth.Proofs.Interception.Uncacheable
import EgressAuth.Proofs.Interception.Turns
import EgressAuth.Proofs.Interception.Independence
import EgressAuth.Proofs.Interception.SlotBound
import EgressAuth.Proofs.Interception.ProviderHeaders
import EgressAuth.Proofs.Interception.ProviderBody
import EgressAuth.Proofs.Interception.Domains
import EgressAuth.Proofs.Endpoint.Table
import EgressAuth.Proofs.Endpoint.Coverage
import EgressAuth.Proofs.Endpoint.Specificity
import EgressAuth.Proofs.Endpoint.Matching
import EgressAuth.Proofs.Endpoint.Expression
import EgressAuth.Proofs.Endpoint.Resolution
import EgressAuth.Proofs.Endpoint.Slots
import EgressAuth.Proofs.Plugin.RawEndpoints
import EgressAuth.Proofs.Endpoint.Governed
import EgressAuth.Proofs.Plugin.Sections
import EgressAuth.Proofs.Plugin.Fallback
import EgressAuth.Proofs.Plugin.Shapes
import EgressAuth.Proofs.Http.Additions
import EgressAuth.Proofs.Http.Selection
import EgressAuth.Proofs.Http.Uri
import EgressAuth.Proofs.Http.PathAndQuery
import EgressAuth.Proofs.Http.Authority
import EgressAuth.Proofs.Http.Uuid
import EgressAuth.Proofs.Outbound.Destination
import EgressAuth.Proofs.Outbound.Placement
import EgressAuth.Proofs.Outbound.ProviderRequest
import EgressAuth.Proofs.Sidecar.FailOpen
import EgressAuth.Proofs.Sidecar.RequestId
