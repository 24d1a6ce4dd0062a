import XcoreSdk.DeviceControl.Dispatch
import XcoreSdk.DeviceControl.LastStatus
import XcoreSdk.DeviceControl.Paths
import XcoreSdk.DeviceControl.Rejected
import XcoreSdk.DeviceControl.Resources
import XcoreSdk.DeviceControl.Transfer
import XcoreSdk.DeviceControl.Transport
import XcoreSdk.Dhcpd.Encoding
import XcoreSdk.Dhcpd.Exclusive
import XcoreSdk.Dhcpd.Inform
import XcoreSdk.Dhcpd.Invariant
import XcoreSdk.Dhcpd.Lease
import XcoreSdk.Dhcpd.LeaseRun
import XcoreSdk.Dhcpd.Listen
import XcoreSdk.Dhcpd.Options
import XcoreSdk.Dhcpd.Parser
import XcoreSdk.Dhcpd.Pool
import XcoreSdk.Dhcpd.PoolContents
import XcoreSdk.Dhcpd.PoolInit
import XcoreSdk.Dhcpd.Request
import XcoreSdk.Dhcpd.Selection
import XcoreSdk.Dhcpd.Sweep
import XcoreSdk.Dhcpd.Undisturbed
import XcoreSdk.Dispatcher.Adding
import XcoreSdk.Dispatcher.Counted
import XcoreSdk.Dispatcher.Distribution
import XcoreSdk.Dispatcher.Isr
import XcoreSdk.Dispatcher.IsrInit
import XcoreSdk.Dispatcher.IsrLedger
import XcoreSdk.Dispatcher.IsrTracked
import XcoreSdk.Dispatcher.IsrWaits
import XcoreSdk.Dispatcher.Performed
import XcoreSdk.Dispatcher.Signals
import XcoreSdk.Dispatcher.Threads
import XcoreSdk.Dispatcher.Waits
import XcoreSdk.Fatfs.Allocation
import XcoreSdk.Fatfs.Clusters
import XcoreSdk.Fatfs.Diskio
import XcoreSdk.Fatfs.Entries
import XcoreSdk.Fatfs.Fat
import XcoreSdk.Fatfs.FaultyFile
import XcoreSdk.Fatfs.File
import XcoreSdk.Fatfs.Sectors
import XcoreSdk.Fatfs.Window
import XcoreSdk.FreeRtos.List
import XcoreSdk.FreeRtos.Osal
import XcoreSdk.Gpio.Interrupts
import XcoreSdk.Gpio.Reports
import XcoreSdk.Gpio.Rpc
import XcoreSdk.I2c.Bus
import XcoreSdk.I2c.BusRelease
import XcoreSdk.I2c.HandOff
import XcoreSdk.I2c.HandedOver
import XcoreSdk.I2c.Master
import XcoreSdk.I2c.Phases
import XcoreSdk.I2c.RegisterResults
import XcoreSdk.I2c.Registers
import XcoreSdk.I2c.RtosSlave
import XcoreSdk.I2c.Served
import XcoreSdk.I2c.Slave
import XcoreSdk.I2c.SlaveProtocol
import XcoreSdk.I2s.Buffer
import XcoreSdk.I2s.Calls
import XcoreSdk.I2s.Driver
import XcoreSdk.I2s.Filter
import XcoreSdk.I2s.Hil
import XcoreSdk.I2s.Pipeline
import XcoreSdk.I2s.Receive
import XcoreSdk.I2s.Restart
import XcoreSdk.I2s.Rpc
import XcoreSdk.I2s.Send
import XcoreSdk.I2s.Transfer
import XcoreSdk.Intertile.Alone
import XcoreSdk.Intertile.Frame
import XcoreSdk.Intertile.Link
import XcoreSdk.Intertile.Rx
import XcoreSdk.Intertile.RxDemux
import XcoreSdk.Intertile.Split
import XcoreSdk.Intertile.SplitDemux
import XcoreSdk.Intertile.Tx
import XcoreSdk.Intertile.TxFraming
import XcoreSdk.Lib.Bits
import XcoreSdk.Lib.Blocks
import XcoreSdk.Lib.Bubble
import XcoreSdk.Lib.Bytes
import XcoreSdk.Lib.Chain
import XcoreSdk.Lib.Heap
import XcoreSdk.Lib.Log
import XcoreSdk.Lib.Loop
import XcoreSdk.Lib.Machine
import XcoreSdk.Lib.Port
import XcoreSdk.Lib.Records
import XcoreSdk.Lib.Ring
import XcoreSdk.Lib.Rounds
import XcoreSdk.Lib.Segment
import XcoreSdk.Lib.Toggle
import XcoreSdk.Lib.Work
import XcoreSdk.MicArray.Blocks
import XcoreSdk.MicArray.Driver
import XcoreSdk.Msc.FlashDisk
import XcoreSdk.QspiFlash.Answers
import XcoreSdk.QspiFlash.Atomic
import XcoreSdk.QspiFlash.Commands
import XcoreSdk.QspiFlash.Device
import XcoreSdk.QspiFlash.EraseOp
import XcoreSdk.QspiFlash.Held
import XcoreSdk.QspiFlash.Issued
import XcoreSdk.QspiFlash.Locking
import XcoreSdk.QspiFlash.OpThread
import XcoreSdk.QspiFlash.ReadOp
import XcoreSdk.QspiFlash.Readers
import XcoreSdk.QspiFlash.Sections
import XcoreSdk.QspiFlash.Sfdp
import XcoreSdk.QspiFlash.Wire
import XcoreSdk.QspiFlash.WriteOp
import XcoreSdk.Rpc.Clients
import XcoreSdk.Rpc.Marshall
import XcoreSdk.Rpc.Pairing
import XcoreSdk.Rpc.Transparency
import XcoreSdk.RtosSupport.Delivery
import XcoreSdk.RtosSupport.Irq
import XcoreSdk.RtosSupport.Printf
import XcoreSdk.RtosSupport.PrintfBuffer
import XcoreSdk.RtosSupport.PrintfConversion
import XcoreSdk.RtosSupport.PrintfScan
import XcoreSdk.RtosSupport.PrintfStandard
import XcoreSdk.RtosSupport.PrintfText
import XcoreSdk.RtosSupport.Requests
import XcoreSdk.RtosSupport.Time
import XcoreSdk.RtosSupport.Tokens
import XcoreSdk.Sntpd.Task
import XcoreSdk.Spi.Delivered
import XcoreSdk.Spi.Exchange
import XcoreSdk.Spi.InOrder
import XcoreSdk.Spi.Master
import XcoreSdk.Spi.MasterRpc
import XcoreSdk.Spi.MasterTransfer
import XcoreSdk.Spi.RemoteTransactions
import XcoreSdk.Spi.Reported
import XcoreSdk.Spi.RtosMaster
import XcoreSdk.Spi.RtosMasterRpc
import XcoreSdk.Spi.RtosSlave
import XcoreSdk.Spi.Slave
import XcoreSdk.Spi.SlaveReceive
import XcoreSdk.Spi.SlaveTransmit
import XcoreSdk.Spi.TransactionEnds
import XcoreSdk.Spi.TransactionRuns
import XcoreSdk.Spi.Transactions
import XcoreSdk.Swmem.Driver
import XcoreSdk.Swmem.Served
import XcoreSdk.Trace.Ascii
import XcoreSdk.Trace.Inside
import XcoreSdk.Usb.ConfigParse
import XcoreSdk.Usb.DataPids
import XcoreSdk.Usb.Descriptor
import XcoreSdk.Usb.Xud
import XcoreSdk.Wfx.Confirmation
import XcoreSdk.Wfx.Handshake
import XcoreSdk.Wfx.Interfaces
import XcoreSdk.Wfx.Isolation
import XcoreSdk.Wfx.Lifecycle
import XcoreSdk.Wfx.ReceiveTask
import XcoreSdk.Wfx.Scanning
import XcoreSdk.Wifi.ApCache
import XcoreSdk.Wifi.Cache
import XcoreSdk.Wifi.ConnMgr
import XcoreSdk.Wifi.ConnectedAp
import XcoreSdk.Wifi.FailedCalls
import XcoreSdk.Wifi.Heapsort
import XcoreSdk.Wifi.MoveFaults
import XcoreSdk.Wifi.ProfileFaults
import XcoreSdk.Wifi.Profiles
import XcoreSdk.Wifi.Scan
import XcoreSdk.Wifi.Unique
