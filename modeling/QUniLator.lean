import QUniLator.Storage.CowCrash
import QUniLator.Storage.VhdServable
import QUniLator.Storage.BinfileWrite
import QUniLator.Storage.CowGrowth
import QUniLator.Mscp.Doorbell
import QUniLator.Mscp.Handshake
import QUniLator.Mscp.Progress
import QUniLator.Mscp.Geometry
import QUniLator.Mscp.PortError
import QUniLator.Mscp.DiskAsserts
import QUniLator.Mscp.UnitWalk
import QUniLator.Tape.Ts11MessageRuns
import QUniLator.Tmscp.TapeBuffers
import QUniLator.Tmscp.TapeReports
import QUniLator.Tmscp.TapeExceptions
import QUniLator.Cpu34.BackOut
import QUniLator.Cpu34.Eis
import QUniLator.Adapter.InterruptRuns
import QUniLator.Adapter.DmaTransfer
import QUniLator.Shared.SyncRuns
import QUniLator.Mux.ReceiveRuns
import QUniLator.Mux.TransmitRuns
import QUniLator.Ethernet.DeunaPort
import QUniLator.Ethernet.DeunaTransmit
import QUniLator.Shared.PartitionBlocks
import QUniLator.Shared.Rt11Accounting
import QUniLator.Mux.DzTransmit
import QUniLator.Mux.TelnetSettles
import QUniLator.Mux.ListenerRuns
import QUniLator.Disks.Rl11Transfer
import QUniLator.Disks.Rk11Transfer
import QUniLator.Disks.Rl02Seek
import QUniLator.Disks.Rk11SeatRuns
import QUniLator.Disks.Rl11SeatRuns
import QUniLator.Timing.FlexiTimeoutRuns
import QUniLator.Disks.Rf11SeatRuns
import QUniLator.Web.XmodemRuns
import QUniLator.Web.ConsoleChannelRuns
import QUniLator.Display.Vcb01InputRuns
import QUniLator.Display.Vcb01Interrupts
import QUniLator.Disks.RxCpuRuns
import QUniLator.Disks.RxBufferRuns
import QUniLator.Disks.RxMedium
import QUniLator.Vax.EventQueueRuns
import QUniLator.Web.PowerRuns
import QUniLator.Web.AuthRuns
import QUniLator.Web.ConfigStoreRuns
import QUniLator.Adapter.UnibusCycleRuns
import QUniLator.Adapter.InitEvents
import QUniLator.Ethernet.DelqaWalks
import QUniLator.Adapter.IoPage
import QUniLator.Memory.Papertape
import QUniLator.Ethernet.ByteDma
import QUniLator.Timing.LineClock
import QUniLator.Web.KermitGrammar
import QUniLator.Mux.DhvDma
import QUniLator.Web.ConfigArchive
