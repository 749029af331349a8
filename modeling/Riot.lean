import Riot.Can.IsotpBounds
import Riot.Can.IsotpRoundTrip
import Riot.Core.BitIteration
import Riot.Core.CibRuns
import Riot.Core.ClistSort
import Riot.Core.Lifo
import Riot.Core.PriorityQueue
import Riot.Core.RingbufferFifo
import Riot.Core.TsrbFifo
import Riot.Net.CoapBlockFinish
import Riot.Net.CoapBlockwise
import Riot.Net.CoapPaths
import Riot.Net.DnsSelection
import Riot.Net.EmcuteTxlock
import Riot.Net.ExtFragRuns
import Riot.Net.FibRoutes
import Riot.Net.FibSourceRoutes
import Riot.Net.FragSlots
import Riot.Net.FragmentCover
import Riot.Net.Icmpv6Checksum
import Riot.Net.Ieee802154Header
import Riot.Net.IphcMulticast
import Riot.Net.IphcReadBounds
import Riot.Net.IphcWriteBounds
import Riot.Net.Ipv6ExtOpt
import Riot.Net.ReassEntries
import Riot.Net.Slipdev
import Riot.Net.TcpAcceptance
import Riot.Net.TcpHandshake
import Riot.Net.TcpLocalPort
import Riot.Net.TcpOptions
import Riot.Net.TcpStream
import Riot.Protocols.EventQueueRuns
import Riot.Protocols.FailedRequest
import Riot.Protocols.MailboxRuns
import Riot.Protocols.MsgConservation
import Riot.Protocols.RequestReplyRuns
import Riot.Protocols.RmutexProtocol
import Riot.Protocols.SemaphoreRuns
import Riot.Protocols.ThreadFlagsRuns
import Riot.Scheduler.AgreementRuns
import Riot.Scheduler.Blocking
import Riot.Scheduler.BudgetRuns
import Riot.Scheduler.Coherence
import Riot.Scheduler.Selection
import Riot.Scheduler.Turns
import Riot.Storage.EepregAgreement
import Riot.Storage.EepregSystem
import Riot.Storage.FlashwriteChunking
import Riot.Storage.VfsDispatch
import Riot.Storage.VfsNormalize
import Riot.Storage.VfsRuns
import Riot.Text.Base64RoundTrip
import Riot.Text.FmtFixed
import Riot.Text.FmtHex
import Riot.Text.UriComponents
import Riot.Timers.ConvertClocks
import Riot.Timers.EvtimerDeadlines
import Riot.Timers.TrickleIntervals
import Riot.Timers.ZtimerDeadlines
import Riot.Timers.ZtimerTracking
