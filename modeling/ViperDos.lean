import ViperDos.CapForest
import ViperDos.CapLineage
import ViperDos.CapStale
import ViperDos.SignalPrivilege
import ViperDos.SignalMemory
import ViperDos.PageSafety
import ViperDos.PmmRounding
import ViperDos.HeapCalls
import ViperDos.RangeCalls
import ViperDos.CapBounds
import ViperDos.CapTransfers
import ViperDos.CapAssigns
import ViperDos.DeviceMaps
import ViperDos.ChannelFifo
import ViperDos.LibcSound
import ViperDos.CacheDurable
import ViperDos.JournalRegion
import ViperDos.VolumePair
import ViperDos.TcpStream
import ViperDos.DmaBuffers
import ViperDos.TlsRecords
import ViperDos.TimerRuns
import ViperDos.TlsBinding
import ViperDos.CapSlots
import ViperDos.HeapRegions
import ViperDos.PageLaws
import ViperDos.HeapMerging
import ViperDos.SignalMasks
import ViperDos.Swapping
import ViperDos.SignalReturn
import ViperDos.JournalFailures
import ViperDos.TcpSend
import ViperDos.TlsAead
