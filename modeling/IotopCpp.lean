import IotopCpp.Lib.Traced
import IotopCpp.Lib.Bytes
import IotopCpp.Lib.Attribute
import IotopCpp.Lib.MarkSweep
import IotopCpp.Common
import IotopCpp.Util
import IotopCpp.Netlink.Message
import IotopCpp.Netlink.Decoder
import IotopCpp.Lib.Runs
import IotopCpp.Monitor.IoMonitor
import IotopCpp.Monitor.TaskTable
import IotopCpp.Monitor.Rates
import IotopCpp.Lib.Totals
import IotopCpp.Monitor.Totals
import IotopCpp.Monitor.TwoRuns
import IotopCpp.Netlink.Replies
import IotopCpp.Netlink.Bounds
import IotopCpp.Lib.Fifo
import IotopCpp.Netlink.Attribution
import IotopCpp.Netlink.Request
import IotopCpp.Netlink.Walk
import IotopCpp.Monitor.Answers
import IotopCpp.Lib.Memory
import IotopCpp.Monitor.Names
import IotopCpp.Cmdline
import IotopCpp.Lib.Printf
import IotopCpp.View.GlyphString
import IotopCpp.View.ViewCurses
import IotopCpp.Lib.Decimal
import IotopCpp.Lib.Picks
import IotopCpp.Monitor.Priority
import IotopCpp.Netlink.Init
import IotopCpp.Util.TaskIds
import IotopCpp.Iotop
import IotopCpp.Lib.Columns
import IotopCpp.Lib.Readback
import IotopCpp.Monitor.Presence
import IotopCpp.View.Rows
import IotopCpp.Lib.Intern
import IotopCpp.Monitor.Attributes
import IotopCpp.View.Cells
import IotopCpp.View.Header
import IotopCpp.View.Printer
import IotopCpp.Lib.Descriptors
import IotopCpp.Util.Descriptors
import IotopCpp.Monitor.Clock
import IotopCpp.Lib.Grid
import IotopCpp.View.Frame
import IotopCpp.Screen
