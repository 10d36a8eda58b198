import IoQuickJS.Library.Transition
import IoQuickJS.Library.Ledger
import IoQuickJS.Collector
import IoQuickJS.Release
import IoQuickJS.CollectorScan
import IoQuickJS.CollectorFree
import IoQuickJS.Machine
import IoQuickJS.Transfer
import IoQuickJS.TimerSpec
import IoQuickJS.SocketSpec
import IoQuickJS.Steps
import IoQuickJS.Stages
import IoQuickJS.ClearTimeout
import IoQuickJS.PendingTimer
import IoQuickJS.Gets
import IoQuickJS.Balance
import IoQuickJS.Teardown
import IoQuickJS.Library.Ring
import IoQuickJS.TaskQueue
import IoQuickJS.TaskOrder
import IoQuickJS.TaskRuns
import IoQuickJS.Malloc
import IoQuickJS.TimerOwner
import IoQuickJS.ReceivePipe
import IoQuickJS.Library.Utf
import IoQuickJS.Text
import IoQuickJS.SocketText
import IoQuickJS.Library.Bytes
import IoQuickJS.DataView
import IoQuickJS.SocketCalls
import IoQuickJS.TimerCalls
import IoQuickJS.Access
import IoQuickJS.AfterPromise
import IoQuickJS.AfterSettles
import IoQuickJS.GetsPromises
import IoQuickJS.Messages
import IoQuickJS.Preempt
import IoQuickJS.PreemptEvents
import IoQuickJS.PreemptRuns
import IoQuickJS.ClassRegistry
import IoQuickJS.SocketBinding
import IoQuickJS.Sending
import IoQuickJS.Reporting
import IoQuickJS.Library.Simulation
import IoQuickJS.Map.MapKey
import IoQuickJS.Library.HashChain
import IoQuickJS.Shape.ShapeRefines
import IoQuickJS.CollectorRoots
import IoQuickJS.Promise.PromiseRuns
import IoQuickJS.Bytecode.StackLevels
import IoQuickJS.Sort.ArraySorted
import IoQuickJS.Closure.ScopeRefines
