import Ducktape.Host.Unwind
import Ducktape.Recovery.Catchup
import Ducktape.Modules.IdentityKeys
import Ducktape.Modules.GovernanceRuns
import Ducktape.Node.Intake
import Ducktape.Recovery.Uniform
import Ducktape.Modules.ValsetGovernance
import Ducktape.Modules.SagaCallbacks
import Ducktape.Duckfs.RetentionRuns
import Ducktape.Duckfs.Resolve
import Ducktape.Node.Canonical
import Ducktape.Recovery.Chunks
import Ducktape.Modules.SagaPages
import Ducktape.Modules.SagaNamespaces
import Ducktape.Modules.RegistryLanes
import Ducktape.Modules.GovernanceRoster
import Ducktape.Netstack.Relay
import Ducktape.Node.Finality
import Ducktape.Pages.TextRanges
import Ducktape.Statesync.Captures
import Ducktape.Forge.Packs
