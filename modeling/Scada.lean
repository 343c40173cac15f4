import Scada.Library.Runs
import Scada.Library.BitMask
import Scada.Library.Program
import Scada.Library.Stepping
import Scada.Library.BoundedQueue
import Scada.Library.LossyLink
import Scada.Library.AppendStore
import Scada.Library.Decimal
import Scada.Library.Delimited
import Scada.Library.KeySort
import Scada.Library.LineChunks
import Scada.Status
import Scada.Kernel.Handler
import Scada.Kernel.Module
import Scada.Kernel.Polarity
import Scada.Kernel.StackMemory
import Scada.Kernel.EdgeDetector
import Scada.Kernel.Sensing
import Scada.Kernel.PinLevels
import Scada.Kernel.Resync
import Scada.Kernel.Lifecycle
import Scada.Kernel.Nesting
import Scada.Kernel.Wiring
import Scada.Kernel.Records
import Scada.Kernel.Release
import Scada.Kernel.PortB
import Scada.Kernel.Invocation
import Scada.Kernel.FifoWindow
import Scada.Rtu.Reader
import Scada.Rtu.Overflow
import Scada.Rtu.Framing
import Scada.Rtu.Sender
import Scada.Rtu.TaskName
import Scada.Rtu.Lifetime
import Scada.Rtu.Console
import Scada.Rtu.Station
import Scada.Exchange
import Scada.Progress
import Scada.Polling
import Scada.Fairness
import Scada.Delivery
import Scada.Historian.EventLog
import Scada.Historian.Exactness
import Scada.Historian.LogFormat
import Scada.Historian.Partition
import Scada.Historian.LogView
import Scada.Historian.Commands
import Scada.Historian.MainLoop
import Scada.Historian.Lookup
import Scada.Historian.SampleLogs
import Scada.Historian.Layout
import Scada.Historian.Lifetime
import Scada.Viewing
import Scada.Output
import Scada.Processes
