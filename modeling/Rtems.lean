import Rtems.Models.Scheduler.Smp.RightThreads
import Rtems.Models.Scheduler.Smp.Edf.WorkConserving
import Rtems.Models.ThreadQueue.Deadlock
import Rtems.Models.ThreadQueue.Updates
import Rtems.Models.ThreadQueue.Smp.Actions
import Rtems.Models.Scheduler.Uniprocessor.Heir
import Rtems.Models.Watchdog.Due
import Rtems.Models.MessageQueue.Delivery
import Rtems.Models.Rfs.Bitmap.Alloc
import Rtems.Models.Objects.Accounting
import Rtems.Models.Rfs.BlockMap.Progress
import Rtems.Models.Barrier.Counting
import Rtems.Models.Events.Delivery
import Rtems.Models.RateMonotonic.Accounting
import Rtems.Models.Rfs.Buffer.Marks
import Rtems.Models.Rfs.File.Frame
import Rtems.Models.Rfs.File.Handles
import Rtems.Models.Rfs.Dir.Empty
import Rtems.Models.Rfs.Dir.FiniteMap
import Rtems.Models.Rfs.Symlink
import Rtems.Models.Fat.Clusters
import Rtems.Models.SparseDisk.Refinement
import Rtems.Models.Pipe.ByteQueue
import Rtems.Models.BlockDevice.Geometry
import Rtems.Models.Heap.Walk
import Rtems.Models.Scheduler.Uniprocessor.Cbs
import Rtems.Models.CeilingMutex.Ceiling
import Rtems.Models.MessageQueue.Memory
import Rtems.Models.RwLock.FirstWaiter
import Rtems.Models.Objects.Iterate
import Rtems.Models.Futex.Wake
import Rtems.Models.Aio.Order
import Rtems.Models.Termios.Receive
import Rtems.Models.Capture.Buffer
