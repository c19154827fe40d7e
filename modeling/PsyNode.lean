import PsyNode.Merkle.Shorten
import PsyNode.Store.ImmAppend
import PsyNode.Store.Restore
import PsyNode.Recorder.Injest
import PsyNode.Recorder.Append
import PsyNode.Recorder.AllOrNothing
import PsyNode.Store.SubTreeDmp
import PsyNode.Realm.RewardKeys
import PsyNode.Realm.Admission
import PsyNode.Realm.Transition
import PsyNode.Rollback.Recovery
import PsyNode.Layout.Agreement
import PsyNode.Layout.Transition
import PsyNode.P2p.Canonical
import PsyNode.Edge.InFlight
import PsyNode.Guardian.Frontier
import PsyNode.Mcp.Recipient
import PsyNode.Ffs.BaselineSound
import PsyNode.Circuit.RotationAgree
import PsyNode.Contract.BatchSound
import PsyNode.Coordinator.GathererOutput
import PsyNode.Coordinator.GathererReplay
import PsyNode.Coordinator.RegisterUser
import PsyNode.Contract.Partition
import PsyNode.Nca.Levels
import PsyNode.Vm.SymFelt
