import GhNet.Base.BsTreeRemove
import GhNet.Base.CopyDir
import GhNet.Base.FreeList
import GhNet.Base.HashMap
import GhNet.Base.Md5Utils
import GhNet.Base.MsgQueue
import GhNet.Base.RmDir
import GhNet.Base.StringReplace
import GhNet.Base.Timer
import GhNet.Client.Codec
import GhNet.Client.DatagramResolver
import GhNet.Client.History
import GhNet.Client.Session
import GhNet.Client.TcpSvr
import GhNet.Iocp.Capacity
import GhNet.Iocp.Contexts
import GhNet.Iocp.Handles
import GhNet.Iocp.Output
import GhNet.Iocp.Pool
import GhNet.Lobby.Departure
import GhNet.Lobby.Handshake
import GhNet.Lobby.Malformed
import GhNet.Lobby.Pairing
import GhNet.Lobby.Relay
import GhNet.Match.Agreement
import GhNet.Net.ByteQueue
import GhNet.Net.Cursors
import GhNet.Net.NetEvent
import GhNet.Net.PacketUse
import GhNet.Network.Codec
import GhNet.Network.Connection
import GhNet.Network.Death
import GhNet.Select.Marks
import GhNet.Server.Frames
import GhNet.Server.Registry
import GhNet.Iocp.Additions
import GhNet.Iocp.Flow
import GhNet.Lobby.Outgoing
import GhNet.Server.Delivery
import GhNet.Client.Sending
import GhNet.Infra.Simulation
import GhNet.Wire.Machine
import GhNet.Server.Turns
import GhNet.Wire.Channels
import GhNet.Wire.Refinement
import GhNet.Iocp.Progress
import GhNet.Server.Progress
import GhNet.Lobby.Total
import GhNet.Iocp.Faults
import GhNet.Server.Survival
import GhNet.Select.Transfers
import GhNet.Select.Fidelity
import GhNet.Select.Reuse
import GhNet.Select.Rounds
import GhNet.Select.Lifecycle
