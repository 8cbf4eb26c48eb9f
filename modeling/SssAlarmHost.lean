import SssAlarmHost.LittleEndian
import SssAlarmHost.FrameParser
import SssAlarmHost.FrameRuns
import SssAlarmHost.FrameDelivery
import SssAlarmHost.FrameSafety
import SssAlarmHost.Ipc
import SssAlarmHost.FrameRecovery
import SssAlarmHost.AlphaCommands
import SssAlarmHost.CommandDelivery
import SssAlarmHost.MachineRuns
import SssAlarmHost.RingBuffer
import SssAlarmHost.UartReceive
import SssAlarmHost.AliveDispatch
import SssAlarmHost.VoicePlayer
import SssAlarmHost.PlayerRuns
import SssAlarmHost.BufferOwnership
import SssAlarmHost.Playback
import SssAlarmHost.Restart
import SssAlarmHost.Preemption
import SssAlarmHost.BusAccess
import SssAlarmHost.OutputLoops
import SssAlarmHost.VoiceReads
import SssAlarmHost.PlayHistory
import SssAlarmHost.VoiceHeader
import SssAlarmHost.FinishGate
import SssAlarmHost.PagedRegisters
import SssAlarmHost.Codec
import SssAlarmHost.Boot
import SssAlarmHost.Terminal
import SssAlarmHost.UdpSession
import SssAlarmHost.NetworkCommands
import SssAlarmHost.NorFlash
import SssAlarmHost.Sfud
import SssAlarmHost.FlashStore
import SssAlarmHost.BlockDevice
import SssAlarmHost.AtReader
import SssAlarmHost.AtResponse
import SssAlarmHost.AtCommands
import SssAlarmHost.BlockList
import SssAlarmHost.SmallMem
import SssAlarmHost.SmallMemOps
import SssAlarmHost.HeapRuns
import SssAlarmHost.PriorityQueues
import SssAlarmHost.Scheduler
import SssAlarmHost.Reschedule
import SssAlarmHost.SchedulerCalls
import SssAlarmHost.SchedulerSteps
import SssAlarmHost.SchedulerRuns
import SssAlarmHost.RoundRobin
import SssAlarmHost.CyclicTime
import SssAlarmHost.Timer
import SssAlarmHost.TimerRuns
