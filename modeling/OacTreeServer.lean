import OacTreeServer.Library.Machine
import OacTreeServer.Library.History
import OacTreeServer.Library.Decimal
import OacTreeServer.Library.LastWrite
import OacTreeServer.Cpp.StdString
import OacTreeServer.Cpp.StdMap
import OacTreeServer.External.AnyValue
import OacTreeServer.External.OacTree
import OacTreeServer.External.Reference
import OacTreeServer.External.PvAccessServer
import OacTreeServer.Protocol.Names
import OacTreeServer.Protocol.ParseValueName
import OacTreeServer.Protocol.Values
import OacTreeServer.Protocol.Entries
import OacTreeServer.Protocol.AnyValueIo
import OacTreeServer.Job.JobInfoIo
import OacTreeServer.Input.RequestServer
import OacTreeServer.Input.Requests
import OacTreeServer.Epics.UpdateQueue
import OacTreeServer.Epics.AnyValueManager
import OacTreeServer.Epics.UserInput
import OacTreeServer.Epics.UserInputInvariant
import OacTreeServer.Epics.UserInputReplies
import OacTreeServer.Epics.UserInputInterrupts
import OacTreeServer.Epics.UserInputChannels
import OacTreeServer.Client.AnyValueManager
import OacTreeServer.Client.Relay
import OacTreeServer.Client.Mirror
import OacTreeServer.Server.AutomationServer
import OacTreeServer.Server.Registration
import OacTreeServer.Server.RegisteredValues
import OacTreeServer.Protocol.AcceptedNames
import OacTreeServer.Epics.ManagerSections
import OacTreeServer.Epics.FailedHandler
import OacTreeServer.Client.FailedAddition
import OacTreeServer.Server.FailingJobs
import OacTreeServer.Client.ReplyDelegator
import OacTreeServer.Library.Delivery
import OacTreeServer.Input.InputProtocol
import OacTreeServer.Job.UserInputRoundTrip
import OacTreeServer.Epics.IoClient
import OacTreeServer.Rpc.ProtocolClient
import OacTreeServer.Rpc.Transparency
import OacTreeServer.Rpc.ClientJob
import OacTreeServer.Library.Recording
import OacTreeServer.Rpc.Requests
import OacTreeServer.Input.GarbageReplies
import OacTreeServer.Job.OutputOrder
import OacTreeServer.Library.Announcement
import OacTreeServer.Client.Announcements
import OacTreeServer.Epics.InputHandlers
import OacTreeServer.Epics.ReplyRouting
import OacTreeServer.Cpp.StdVector
import OacTreeServer.Library.Atomicity
import OacTreeServer.Rpc.IndivisibleCalls
import OacTreeServer.Rpc.RemoteControl
import OacTreeServer.Epics.Monitors
import OacTreeServer.Library.Progress
import OacTreeServer.Publication.Channels
import OacTreeServer.Publication.Connections
import OacTreeServer.Publication.Delivery
import OacTreeServer.Publication.Settling
import OacTreeServer.Client.ReplyProgress
import OacTreeServer.Dialogue.Conversation
import OacTreeServer.Dialogue.Integrity
import OacTreeServer.Dialogue.Shown
