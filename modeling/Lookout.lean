import Lookout.Graph.Transparency
import Lookout.Graph.ReplayRuns
import Lookout.Graph.Restored
import Lookout.Engine.StormClear
import Lookout.Engine.DedupSchedule
import Lookout.Watch.Homes
import Lookout.Watch.StormClaim
import Lookout.Watch.StormUnbind
import Lookout.TopologyDrift.Axis
import Lookout.Leeway.Relocation
import Lookout.Leeway.ResolveOrder
import Lookout.Leeway.SourceEpisodes
import Lookout.Cronsched.Missed
import Lookout.Emit.SecretPayload
import Lookout.TopologyDrift.VerifyRuns
import Lookout.Sources.Outage
import Lookout.Sources.RolloutRuns
import Lookout.Sources.Endpoints
import Lookout.Sources.GonePods
import Lookout.Findings.SubjectKey
import Lookout.Audit.Budgets
