import GiantGecko.Foundation.Transition
import GiantGecko.Foundation.Ring
import GiantGecko.Foundation.DropOldest
import GiantGecko.Foundation.Crc
import GiantGecko.Foundation.LossyLine
import GiantGecko.Foundation.OrderedQueue
import GiantGecko.Foundation.Cursor
import GiantGecko.Foundation.BoundedStore
import GiantGecko.Foundation.Intrusive
import GiantGecko.Foundation.SerialNumber
import GiantGecko.Spi.Dma
import GiantGecko.Spi.Driver
import GiantGecko.Spi.Program
import GiantGecko.Spi.Coverage
import GiantGecko.Spi.Lockstep
import GiantGecko.Spi.Agreement
import GiantGecko.Spi.Transmitter
import GiantGecko.Spi.Operation
import GiantGecko.Spi.IdleBus
import GiantGecko.Leuart.Driver
import GiantGecko.Leuart.Reception
import GiantGecko.Leuart.Reading
import GiantGecko.Leuart.Writing
import GiantGecko.Leuart.Safety
import GiantGecko.Leuart.Balance
import GiantGecko.MemLcd.Driver
import GiantGecko.MemLcd.Pixels
import GiantGecko.MemLcd.Lines
import GiantGecko.MemLcd.Panel
import GiantGecko.Gpio.IrqHandler
import GiantGecko.Gpio.Locality
import GiantGecko.Ymodem.Receiver
import GiantGecko.Ymodem.Sender
import GiantGecko.Ymodem.Session
import GiantGecko.Ymodem.Reception
import GiantGecko.Ymodem.Progress
import GiantGecko.Ymodem.Alignment
import GiantGecko.Ymodem.Prompt
import GiantGecko.Ymodem.ExactlyOnce
import GiantGecko.Ymodem.Update
import GiantGecko.Ymodem.Cleanup
import GiantGecko.Ymodem.Reassembly
import GiantGecko.Ymodem.HeaderAgreement
import GiantGecko.Ymodem.FileHeader
import GiantGecko.Ymodem.Power
import GiantGecko.Ymodem.Download
import GiantGecko.Timers.Rtc
import GiantGecko.Timers.Letimer
import GiantGecko.Timers.LetimerFreq
import GiantGecko.Timers.Delay
import GiantGecko.Timers.UsDelay
import GiantGecko.Pm.ClockAgreement
import GiantGecko.Foundation.Bytes
import GiantGecko.Foundation.Links
import GiantGecko.Foundation.Chain
import GiantGecko.Rtos.Allocations
import GiantGecko.Rtos.Grants
import GiantGecko.Rtos.Heaps
import GiantGecko.Rtos.HeapUsers
import GiantGecko.Rtos.HeapSizes
import GiantGecko.Drivers.RingFifo
import GiantGecko.Drivers.SerialModes
import GiantGecko.Drivers.SerialFifo
import GiantGecko.Drivers.DataQueue
import GiantGecko.Drivers.WorkqueueSafety
import GiantGecko.Drivers.I2c
import GiantGecko.Drivers.Rx8025
import GiantGecko.Rtos.MempoolSound
import GiantGecko.Rtos.Tokens
import GiantGecko.Rtos.BlockedTakes
import GiantGecko.Rtos.MailboxFifo
import GiantGecko.Rtos.EventGroups
import GiantGecko.Rtos.MessageOrder
import GiantGecko.Rtos.TimerFlag
import GiantGecko.Rtos.Punctual
import GiantGecko.Rtos.Inheritance
import GiantGecko.Rtos.Preemption
import GiantGecko.Finsh.LineEditor
import GiantGecko.Pm.Requests
import GiantGecko.Pm.DevicePairing
import GiantGecko.Rtos.SoftTimers
import GiantGecko.Rtos.TimerThread
import GiantGecko.Rtos.SoftCheck
import GiantGecko.Rtos.Format
import GiantGecko.Rtos.FormatEmits
import GiantGecko.Rtos.FormatBuffer
import GiantGecko.Rtos.FormatText
import GiantGecko.Rtos.FormatNumber
import GiantGecko.Drivers.DelayedWorkSafety
import GiantGecko.Finsh.MshSplit
import GiantGecko.Rtos.ThreadStates
import GiantGecko.Rtos.WaitOrder
import GiantGecko.Rtos.FormatPrinted
import GiantGecko.Finsh.RunLine
import GiantGecko.Gui.RegionQueries
import GiantGecko.Gui.TopWinClips
