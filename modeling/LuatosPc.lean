import LuatosPc.Base.Machine
import LuatosPc.Base.Fifo
import LuatosPc.Base.Linked
import LuatosPc.Network.Basic
import LuatosPc.Network.Run
import LuatosPc.Network.Slot
import LuatosPc.Network.Tags
import LuatosPc.Network.Release
import LuatosPc.Network.Buffers
import LuatosPc.Network.Inbox
import LuatosPc.Network.Stream
import LuatosPc.Network.Nodes
import LuatosPc.Network.Datagrams
import LuatosPc.Network.Callbacks
import LuatosPc.Network.Handles
import LuatosPc.Network.Close
import LuatosPc.Network.Closed
import LuatosPc.Base.Mutex
import LuatosPc.Uart.Win32
import LuatosPc.Uart.Deadlock
import LuatosPc.Uart.Input
import LuatosPc.Uart.Output
import LuatosPc.Uart.Ports
import LuatosPc.Base.Bytes
import LuatosPc.Uart.Udp
import LuatosPc.Luadb.Format
import LuatosPc.Luadb.Image
import LuatosPc.Base.Program
import LuatosPc.Luac.Dump
import LuatosPc.Luac.Reading
import LuatosPc.Luac.RoundTrip
import LuatosPc.Rtos.Queue
import LuatosPc.Rtos.MsgBus
import LuatosPc.Rtos.Task
import LuatosPc.Rtos.RtosTimer
import LuatosPc.Base.Slots
import LuatosPc.Rtos.Timer
import LuatosPc.Base.Ring
import LuatosPc.Driver.Touch
import LuatosPc.Driver.TouchStream
import LuatosPc.Mock
import LuatosPc.Cmd.Files
import LuatosPc.Cmd.Parse
import LuatosPc.Cmd.BaseName
import LuatosPc.Cmd.Compile
import LuatosPc.Cmd.LuaTools
import LuatosPc.Rtos.TaskWait
import LuatosPc.Uart.UdpSession
import LuatosPc.Rtos.TimerStop
import LuatosPc.Network.Empty
import LuatosPc.Cmd.FinalLine
import LuatosPc.Cmd.PathBuffers
import LuatosPc.Luac.Entries
import LuatosPc.Luac.Tables
import LuatosPc.Luac.Accept
import LuatosPc.Luac.DoReport
import LuatosPc.Driver.TouchRing
import LuatosPc.Driver.TouchPanel
import LuatosPc.Mock.Failures
import LuatosPc.Mock.Clients
import LuatosPc.Base.Decimal
import LuatosPc.Mobile
import LuatosPc.Driver.Mcu
import LuatosPc.Base.Pixels
import LuatosPc.Font
import LuatosPc.Font.Gray
import LuatosPc.Driver.Ch347
import LuatosPc.Heap
import LuatosPc.Base.Ledger
import LuatosPc.Base.Follow
import LuatosPc.Network.Sent
import LuatosPc.Network.Announced
import LuatosPc.Network.Dns
import LuatosPc.Rtos.Mutex
import LuatosPc.Cmd.Contents
import LuatosPc.Cmd.Dump
import LuatosPc.Base.Shadow
import LuatosPc.Lwip.Timeouts
import LuatosPc.Lwip.Mbox
import LuatosPc.Base.Ones
import LuatosPc.Lwip.Chksum
import LuatosPc.Lwip.Udp
import LuatosPc.Base.Tiles
import LuatosPc.Lwip.Reass
import LuatosPc.Lwip.ReassInv
import LuatosPc.Lwip.ReassWhole
import LuatosPc.Lwip.Frag
import LuatosPc.Base.Footprint
import LuatosPc.Driver.Ztt
import LuatosPc.Driver.Gpio
import LuatosPc.Base.Brackets
import LuatosPc.Driver.Ffmpeg
import LuatosPc.Driver.Audio
