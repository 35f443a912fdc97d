import AdbFastboot.HostSerial
import AdbFastboot.HostReply
import AdbFastboot.HostProtocolRoundTrip
import AdbFastboot.APacketStream
import AdbFastboot.ShellV2RoundTrip
import AdbFastboot.PairingDuplex
import AdbFastboot.TcpFramed
import AdbFastboot.TcpRaw
import AdbFastboot.UdpExactlyOnce
import AdbFastboot.UdpWrite
import AdbFastboot.BootSafety
import AdbFastboot.BootLayout
import AdbFastboot.VendorRoundTrip
import AdbFastboot.VendorSafety
import AdbFastboot.SparseRaw
import AdbFastboot.SparseConsistency
import AdbFastboot.SparseSplitFaithful
import AdbFastboot.SparseFlashSplit
import AdbFastboot.BridgeLoss
import AdbFastboot.BridgeIsolation
import AdbFastboot.SyncTree
import AdbFastboot.InstallQuoting
import AdbFastboot.MdnsAnswerExact
import AdbFastboot.ShellStream
import AdbFastboot.StdinEscape
import AdbFastboot.RegistryWatch
import AdbFastboot.ForwardRebind
import AdbFastboot.ForwardRoute
import AdbFastboot.ForwardExact
import AdbFastboot.IncrementalComplete
import AdbFastboot.IncrementalPump
import AdbFastboot.IncrementalTransport
import AdbFastboot.IncrementalVerdict
import AdbFastboot.VerityGeometry
import AdbFastboot.PriorityBlocks
import AdbFastboot.IdSigHeaders
import AdbFastboot.VbmetaPatch
import AdbFastboot.UsbAuthCache
import AdbFastboot.AidlEnum
import AdbFastboot.AidlInterface
import AdbFastboot.AuthResponder
import AdbFastboot.ServerEscape
import AdbFastboot.ReconnectLocks
import AdbFastboot.EdwardsPoint
