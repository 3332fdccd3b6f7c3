import Bexos.BexfsValid
import Bexos.ChannelBalance
import Bexos.ControlDescriptors
import Bexos.FirewallFragments
import Bexos.FirstFit
import Bexos.FrameAllocator
import Bexos.FutexMutex
import Bexos.InterruptIdentity
import Bexos.KernelHandoff
import Bexos.LiveReplacement
import Bexos.MigrationSession
import Bexos.OciLayers
import Bexos.PortRecovery
import Bexos.PrefixTranslation
import Bexos.RecordCopy
import Bexos.SchedulerAdmission
import Bexos.SchedulerAncestry
import Bexos.SchedulerBudgets
import Bexos.SchedulerTimer
import Bexos.SocketStreams
import Bexos.SysState
import Bexos.Termination
import Bexos.TranslationPairs
import Bexos.TransportLanes
import Bexos.WallClock
