import Skytime.Hub.CloseOnce
import Skytime.Hub.Delivery
import Skytime.Hub.Latest
import Skytime.Conn.AckHandover
import Skytime.Conn.Drain
import Skytime.Conn.Schedule
import Skytime.Conn.Timeout
import Skytime.Conn.Wire
import Skytime.Conn.WriteMu
import Skytime.Acks.Answer
import Skytime.Acks.Accounts
import Skytime.Acks.Conservation
import Skytime.Acks.Notify
import Skytime.Rooms.Admission
import Skytime.Rooms.Counters
import Skytime.Rooms.Detect
import Skytime.Rooms.LiveWriter
import Skytime.Rooms.Overtaking
import Skytime.Rooms.Partition
import Skytime.Rooms.Presence
import Skytime.Rooms.RateLimit
import Skytime.Rooms.SameBroadcast
import Skytime.Rooms.SendClosed
import Skytime.Rooms.Serial
import Skytime.Rooms.TotalOrder
import Skytime.Api.AddressFilter
import Skytime.Api.Console
import Skytime.Api.Copies
import Skytime.Api.Requests
import Skytime.Api.RoomLists
import Skytime.Api.Telnet
import Skytime.Server.PidFile
import Skytime.Client.Benchmark
import Skytime.Client.Acks
import Skytime.Sdk.Client
import Skytime.Sdk.PeerList
import Skytime.WebSocket.Received
import Skytime.Server.Whole
import Skytime.Consistent.Agree
import Skytime.Consistent.Rooms
import Skytime.Process.Decimal
import Skytime.Process.Lines
import Skytime.Server.Cfg
import Skytime.Server.MainConfig
import Skytime.Server.Stands
