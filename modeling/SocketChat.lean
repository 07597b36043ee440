import SocketChat.Lib.Transition
import SocketChat.Json.Value
import SocketChat.Lib.Prog
import SocketChat.Lib.Table
import SocketChat.Protocol
import SocketChat.Server.ClientManager
import SocketChat.Server.RoomManager
import SocketChat.Server.Calls
import SocketChat.Server.Handlers
import SocketChat.Server.Effects
import SocketChat.Lib.Roster
import SocketChat.Server.Membership
import SocketChat.Json.Text
import SocketChat.Json.RoundTrip
import SocketChat.Server.RoomAgreement
import SocketChat.Lib.Reservation
import SocketChat.Server.Nicknames
import SocketChat.Server.Texts
import SocketChat.Server.Delivery
import SocketChat.Server.Capacity
import SocketChat.Server.Answers
import SocketChat.Lib.Framing
import SocketChat.Server.PacketReceiver
import SocketChat.Client.NetworkClient
import SocketChat.Client.PacketHandler
import SocketChat.Lib.Pool
import SocketChat.Server.Discipline
import SocketChat.Server.ThreadPool
import SocketChat.Server.NicknameRace
import SocketChat.Server.DescriptorReuse
import SocketChat.Server.RoomLeaks
import SocketChat.Json.Cut
import SocketChat.Server.Notices
import SocketChat.Client.SendMessage
import SocketChat.Lib.Writers
import SocketChat.Server.OutgoingStreams
import SocketChat.Client.ChatSession
import SocketChat.Client.TwoReaders
import SocketChat.Client.LeaveChat
import SocketChat.Server.Bystanders
import SocketChat.Client.Services
import SocketChat.Client.Answering
import SocketChat.Client.Dialogue
import SocketChat.Client.Outcomes
import SocketChat.Server.LiveRooms
import SocketChat.Server.OwnState
import SocketChat.Client.CreatedRooms
import SocketChat.Client.NoticeReading
import SocketChat.Client.Builders
import SocketChat.Client.Decoder
import SocketChat.Lib.Places
import SocketChat.Server.TaskQueue
import SocketChat.Client.Console
import SocketChat.Lib.IStream
import SocketChat.Lib.Footprint
import SocketChat.Server.Independence
import SocketChat.Server.TaskPool
import SocketChat.Server.RoomCodes
import SocketChat.Lib.Attendance
import SocketChat.Server.RoomHistory
import SocketChat.Lib.Alike
import SocketChat.Server.RecvBuffers
import SocketChat.Server.IoThread
import SocketChat.Server.Arrivals
import SocketChat.Server.IoRefinement
import SocketChat.Lib.Dues
import SocketChat.Lib.Quiescence
import SocketChat.Lib.Retries
import SocketChat.Server.AnswersDue
import SocketChat.Lib.Serial
import SocketChat.Server.Serializable
import SocketChat.Server.AtRest
import SocketChat.Lib.Settled
import SocketChat.Server.Speaking
import SocketChat.Server.Histories
import SocketChat.Lib.Contract
import SocketChat.Client.Lobby
import SocketChat.Client.Terminal
import SocketChat.Client.Screen
import SocketChat.Client.Watching
import SocketChat.Client.Transcript
import SocketChat.Client.Conversation
