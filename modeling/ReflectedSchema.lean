import ReflectedSchema.Annotated.Instance
import ReflectedSchema.Chat.Client
import ReflectedSchema.Chat.Request
import ReflectedSchema.Log.Loggers
import ReflectedSchema.Proofs.Decoding.Agreement
import ReflectedSchema.Proofs.Decoding.Coverage
import ReflectedSchema.Proofs.RoundTrip.Inverse
import ReflectedSchema.Table
import ReflectedSchema.Proofs.References.Identity
import ReflectedSchema.Proofs.References.Resolution
import ReflectedSchema.Proofs.Building.Descent
import ReflectedSchema.Proofs.Arrays.Findings
import ReflectedSchema.Proofs.Decoding.Location
import ReflectedSchema.Proofs.Arrays.Wrapping
import ReflectedSchema.Proofs.Arrays.Elementwise
import ReflectedSchema.Proofs.Libraries.Runs
import ReflectedSchema.Proofs.Building.Failing
import ReflectedSchema.Proofs.Decoding.Totality
import ReflectedSchema.Proofs.Decoding.Traversal
import ReflectedSchema.Proofs.Decoding.Effects
import ReflectedSchema.Proofs.Registries.Names
import ReflectedSchema.Proofs.Checking.Keys
import ReflectedSchema.Proofs.Checking.Members
import ReflectedSchema.Proofs.Decoding.Order
import ReflectedSchema.Proofs.Decoding.Soundness
import ReflectedSchema.Proofs.Decoding.Frames
import ReflectedSchema.Proofs.Building.Paths
import ReflectedSchema.Proofs.Decoding.Boxed
import ReflectedSchema.Proofs.Payloads.Fences
import ReflectedSchema.Proofs.Registries.Elements
import ReflectedSchema.Proofs.Registries.Reference
import ReflectedSchema.Proofs.Registries.Escapes
import ReflectedSchema.Proofs.Documents.Texts
import ReflectedSchema.Proofs.Payloads.Malformed
import ReflectedSchema.Proofs.Registries.Properties
import ReflectedSchema.Proofs.Libraries.Requests
import ReflectedSchema.Proofs.Decoding.Flags
import ReflectedSchema.Proofs.Descriptions.Cleaning
import ReflectedSchema.Proofs.Libraries.FormatNames
import ReflectedSchema.Proofs.Clients.Precedence
import ReflectedSchema.Proofs.Checking.Pointers
import ReflectedSchema.Proofs.Kinds.Proper
