import TctiUefi.Lib.Layout
import TctiUefi.Lib.Buffer
import TctiUefi.Lib.Exchange
import TctiUefi.Lib.Edit
import TctiUefi.Lib.Pool
import TctiUefi.Tcti.Run
import TctiUefi.Tcti.Containment
import TctiUefi.Tcti.Pairing
import TctiUefi.Tcti.Limits
import TctiUefi.Tcti.Leak
import TctiUefi.Tcti.Atomicity
import TctiUefi.EventLog.Laid
import TctiUefi.EventLog.RoundTrip
import TctiUefi.EventLog.SpecId
import TctiUefi.EventLog.FormatChoice
import TctiUefi.Pcr.Selection
import TctiUefi.Pcr.Tool
import TctiUefi.Pcr.ReadAll
import TctiUefi.Tcti.Header
import TctiUefi.Pcr.ActiveBanks
import TctiUefi.Tcti.Narrowing
import TctiUefi.EventLog.EmptyRange
import TctiUefi.EventLog.Progress
import TctiUefi.EventLog.Wrap
import TctiUefi.EventLog.Reads
import TctiUefi.EventLog.Legacy
import TctiUefi.EventLog.Bounds
import TctiUefi.EventLog.Unknown
import TctiUefi.EventLog.SameEvent
import TctiUefi.Pcr.BitSet
import TctiUefi.Pcr.Enumeration
import TctiUefi.Pcr.Received
import TctiUefi.Pcr.Rounds
import TctiUefi.Sapi.Setup
import TctiUefi.Sapi.Balance
import TctiUefi.EventLog.Decode
import TctiUefi.EventLog.Render
import TctiUefi.EventLog.ReadBack
import TctiUefi.EventLog.Session
import TctiUefi.Lib.Client
import TctiUefi.Lib.Family
import TctiUefi.Tcti.Channel
import TctiUefi.Pcr.Asked
import TctiUefi.Sapi.CapsShown
import TctiUefi.Sapi.GetPcrs
import TctiUefi.Sapi.NvOps
import TctiUefi.Sapi.Tools
import TctiUefi.Caps
import TctiUefi.Sapi.Stack
