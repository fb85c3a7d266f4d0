import Am437x.Lib.Runs
import Am437x.Lib.Loops
import Am437x.Lib.Memory
import Am437x.Lib.CString
import Am437x.Lib.Ring
import Am437x.Lib.Writes
import Am437x.Lib.Ram
import Am437x.Lib.BitFlags
import Am437x.Lib.RefCount
import Am437x.Tcp.Ssl
import Am437x.Tcp.FileTransfer
import Am437x.Tcp.Proofs.FileTransferProofs
import Am437x.Tcp.ReceiveSafety
import Am437x.Tcp.Echo
import Am437x.Tcp.Proofs.EchoProofs
import Am437x.Tcp.HandleClient
import Am437x.Tcp.Proofs.HandleClientProofs
import Am437x.Tcp.TypedLine
import Am437x.Udp.Broadcast
import Am437x.Udp.Proofs.BroadcastProofs
import Am437x.Udp.ServerLoop
import Am437x.Phy.Dp83822
import Am437x.Phy.Proofs.Dp83822Proofs
import Am437x.Prueth.Device
import Am437x.Prueth.Queue
import Am437x.Prueth.TxRing
import Am437x.Prueth.Proofs.TxRingProofs
import Am437x.Prueth.StartXmit
import Am437x.Prueth.Proofs.StartXmitProofs
import Am437x.Prueth.EthMode
import Am437x.Prueth.Proofs.EthModeProofs
import Am437x.Prueth.Bridge
import Am437x.Prueth.Proofs.BridgeProofs
import Am437x.Prueth.OpenStop
import Am437x.Prueth.Proofs.OpenStopProofs
import Am437x.Prueth.Ptp
import Am437x.Prueth.Proofs.PtpProofs
import Am437x.Prueth.RxMode
import Am437x.Prueth.Proofs.RxModeProofs
import Am437x.Prueth.RxPacket
import Am437x.Prueth.Proofs.RxPacketProofs
import Am437x.Prueth.Rx
import Am437x.Prueth.Proofs.RxProofs
import Am437x.Prueth.NapiPoll
import Am437x.Prueth.HostQueue
import Am437x.Prueth.Proofs.HostQueueProofs
import Am437x.Prueth.Proofs.HostPollProofs
import Am437x.Prueth.Proofs.NapiPollProofs
import Am437x.Spl.DdrTest
import Am437x.Spl.Proofs.DdrTestProofs
import Am437x.Spl.Boot
import Am437x.Tcp.Proofs.ReceiveSafetyProofs
import Am437x.Tcp.Proofs.TypedLineProofs
import Am437x.Tcp.Shutdown
import Am437x.Tcp.Proofs.ShutdownProofs
import Am437x.Udp.Proofs.ServerLoopProofs
import Am437x.Udp.BufferSafety
import Am437x.Udp.Proofs.BufferSafetyProofs
import Am437x.Spl.Proofs.BootProofs
import Am437x.Lib.Words
import Am437x.Printk.LogBuffer
import Am437x.Printk.Proofs.LogBufferProofs
import Am437x.Printk.MsgText
import Am437x.Printk.Syslog
import Am437x.Printk.Proofs.SyslogProofs
import Am437x.Lib.LastFit
import Am437x.Printk.RecordRange
import Am437x.Printk.Proofs.RecordRangeProofs
import Am437x.Printk.KmsgDump
import Am437x.Printk.Proofs.KmsgDumpProofs
import Am437x.Printk.PrintAll
import Am437x.Printk.Proofs.PrintAllProofs
import Am437x.Printk.Cont
import Am437x.Printk.Proofs.ContProofs
import Am437x.Printk.Ext
import Am437x.Printk.Proofs.ExtProofs
import Am437x.Printk.Devkmsg
import Am437x.Printk.Proofs.DevkmsgProofs
import Am437x.Csf.Proofs.RoundTripProofs
import Am437x.Csf.Proofs.SafetyProofs
import Am437x.Csf.Proofs.ExtractProofs
import Am437x.Csf.Proofs.FilesProofs
