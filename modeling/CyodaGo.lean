import CyodaGo.Verification.Memory.NilSafety
import CyodaGo.Verification.Memory.Abort
import CyodaGo.Verification.Memory.ClaimKeys
import CyodaGo.Verification.Memory.FirstCommitter
import CyodaGo.Verification.Schema.Depth
import CyodaGo.Verification.Schema.Join
import CyodaGo.Verification.Schema.JsonSchema
import CyodaGo.Verification.Models.Agreement
import CyodaGo.Verification.Models.Savepoints
import CyodaGo.Verification.Models.Visibility
import CyodaGo.Verification.Models.Import
import CyodaGo.Verification.Dispatch.Skew
import CyodaGo.Verification.Match.Lifecycle
import CyodaGo.Verification.Auth.TokenExchange
import CyodaGo.Verification.Planner.SqliteLeaf
import CyodaGo.Verification.Planner.PostgresLeaf
import CyodaGo.Verification.Search.Cancel
import CyodaGo.Verification.Search.InFlight
import CyodaGo.Verification.Sqlite.UniqueKeys
import CyodaGo.Verification.Workflow.Audit
import CyodaGo.Verification.Workflow.Millis
import CyodaGo.Verification.Workflow.Loops
import CyodaGo.Verification.Postgres.Savepoints
import CyodaGo.Verification.Memory.Savepoints
import CyodaGo.Verification.Sqlite.Overlay
import CyodaGo.Verification.Oidc.Registration
import CyodaGo.Verification.Oidc.KidIndex
import CyodaGo.Verification.Models.LockDiscipline
import CyodaGo.Verification.Cluster.Gossip
import CyodaGo.Verification.Auth.Coalesce
import CyodaGo.Verification.Grpc.Membership
import CyodaGo.Verification.TxGate
import CyodaGo.Verification.Models.Ingest
