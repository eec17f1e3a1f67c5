import Embassies.Crypto.RoundTrip
import Embassies.Crypto.Oversize
import Embassies.Network.ReassemblyBounds
import Embassies.Monitor.Labels
import Embassies.Monitor.Isolation
import Embassies.Kvm.Sleepers
import Embassies.Kvm.FreeRanges
import Embassies.Kvm.Translation
import Embassies.Kvm.RangeOrder
import Embassies.Zftp.ReplyCodec
import Embassies.Monitor.Tenancy
import Embassies.Kvm.CallPage
import Embassies.LinuxElf.ZMutex
import Embassies.LinuxElf.FileMapping
import Embassies.LinuxElf.SimPipe
import Embassies.KeyStore.ReplyBounds
import Embassies.KeyStore.Authenticity
import Embassies.KeyStore.KeyValFS
import Embassies.Zarfile.PathLookup
import Embassies.Coordinator.PerApp
import Embassies.Zarfile.ContentRoundTrip
import Embassies.Zarfile.Replay
import Embassies.Kvm.VcpuPool
import Embassies.LinuxDbg.PacketQueue
import Embassies.LinuxDbg.BufferPool
import Embassies.Zftp.BlockCopies
import Embassies.Zftp.InstallData
import Embassies.Zftp.ServerCache
import Embassies.Zftp.RequestBudget
import Embassies.Zftp.TreeMath
import Embassies.Core.Layout
import Embassies.Crypto.RandomSupply
import Embassies.Zftp.FileGeometry
import Embassies.Crypto.StreamName
import Embassies.Crypto.SignatureSize
import Embassies.Crypto.NameComparison
import Embassies.Crypto.SymEncKey
import Embassies.Zftp.DatabaseRecord
import Embassies.Zftp.ClientIntegrity
