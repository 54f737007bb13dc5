import AndroidKernel.Transition
import AndroidKernel.RunList
import AndroidKernel.PrioArray
import AndroidKernel.RtGroups
import AndroidKernel.Runqueue
import AndroidKernel.Wrr
import AndroidKernel.Rt
import AndroidKernel.Core
import AndroidKernel.Operations
import AndroidKernel.System
import AndroidKernel.RtGroupInvariant
import AndroidKernel.RtGroupPaths
import AndroidKernel.RtGroupLaws
import AndroidKernel.RunqueueInvariant
import AndroidKernel.QueueInvariant
import AndroidKernel.RtQueueInvariant
import AndroidKernel.Effects
import AndroidKernel.RtEffects
import AndroidKernel.ReachableStates
import AndroidKernel.Boot
import AndroidKernel.RunQueueLaws
import AndroidKernel.TaskEdits
import AndroidKernel.PolicySteps
import AndroidKernel.PolicyClass
import AndroidKernel.Privilege
import AndroidKernel.Scheduling
import AndroidKernel.WeightedShares
import AndroidKernel.BoundedWaiting
import AndroidKernel.PriorityInheritance
import AndroidKernel.RtHandOut
import AndroidKernel.FastPath
import AndroidKernel.Placement
import AndroidKernel.SliceBounds
import AndroidKernel.Surplus
import AndroidKernel.GroupMoves
import AndroidKernel.PullWrr
import AndroidKernel.Ptree
import AndroidKernel.PreOrder
import AndroidKernel.PtreeForest
import AndroidKernel.PtreeStores
import AndroidKernel.PtreeListing
import AndroidKernel.Execution
import AndroidKernel.PtreeShape
import AndroidKernel.PtreeParents
import AndroidKernel.PtreeSiblings
import AndroidKernel.PtreeBounds
import AndroidKernel.PtreeConcurrent
import AndroidKernel.Server
import AndroidKernel.ServerSteps
import AndroidKernel.ServerAccept
import AndroidKernel.ServerSlots
import AndroidKernel.ReplyStream
import AndroidKernel.ClientServer
import AndroidKernel.RunTime
import AndroidKernel.PreemptionFlags
import AndroidKernel.Preemption
import AndroidKernel.MissedPreemption
import AndroidKernel.Loop
import AndroidKernel.HotplugDrain
import AndroidKernel.Affinity
import AndroidKernel.Disconnect
import AndroidKernel.CellString
import AndroidKernel.Buffers
import AndroidKernel.BufferRefinement
import AndroidKernel.RtBandwidth
import AndroidKernel.RtLoans
import AndroidKernel.TreeWalk
import AndroidKernel.TaskGroups
import AndroidKernel.RtSchedulable
import AndroidKernel.RtShares
import AndroidKernel.CfsQuota
import AndroidKernel.CfsLimits
import AndroidKernel.Completion
import AndroidKernel.CompletionInvariant
import AndroidKernel.CompletionLaws
import AndroidKernel.WakeList
import AndroidKernel.WakeListInvariant
import AndroidKernel.WakeListRuns
import AndroidKernel.WakeListLaws
import AndroidKernel.FixedPoint
import AndroidKernel.LoadAverage
import AndroidKernel.LoadAverageLaws
import AndroidKernel.LoadClock
import AndroidKernel.LoadCounts
import AndroidKernel.LoadCountsInvariant
import AndroidKernel.LoadCountsLaws
