import SrFirmware.Lib.Steps
import SrFirmware.Lib.Suffix
import SrFirmware.Lib.Ring
import SrFirmware.Lib.Handover
import SrFirmware.Lib.Feedback
import SrFirmware.Lib.Remainder
import SrFirmware.Lib.Registers
import SrFirmware.Lib.Lines
import SrFirmware.Lib.Pio
import SrFirmware.Lib.Quadrature
import SrFirmware.Crc
import SrFirmware.CrcAlgebra
import SrFirmware.Log
import SrFirmware.LogRing
import SrFirmware.CrcRemainder
import SrFirmware.Frame
import SrFirmware.LogHistory
import SrFirmware.LogBounds
import SrFirmware.Serial
import SrFirmware.Wire
import SrFirmware.Receive
import SrFirmware.Requests
import SrFirmware.CommandLoop
import SrFirmware.Corruption
import SrFirmware.Max77958
import SrFirmware.Opcodes
import SrFirmware.OpcodeOrder
import SrFirmware.OpcodeSequence
import SrFirmware.OpcodeWait
import SrFirmware.Max77958Irq
import SrFirmware.Bq27742Irq
import SrFirmware.Bq27742Jobs
import SrFirmware.DataFlash
import SrFirmware.Ncp3901
import SrFirmware.Drv8830
import SrFirmware.GaugeBus
import SrFirmware.LogLock
import SrFirmware.Telemetry
import SrFirmware.I2cRetry
import SrFirmware.StateHistory
import SrFirmware.CaptureUart
import SrFirmware.CaptureStages
import SrFirmware.CaptureReattach
import SrFirmware.CaptureSummary
import SrFirmware.QuadratureEncoder
import SrFirmware.EncoderCount
import SrFirmware.BenchmarkHost
import SrFirmware.OpcodeRest
import SrFirmware.Max77976
import SrFirmware.Max77976Irq
import SrFirmware.ScopeTest
import SrFirmware.BootTests
import SrFirmware.CaptureLog
import SrFirmware.Resync
import SrFirmware.LogService
