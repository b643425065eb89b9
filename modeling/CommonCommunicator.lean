import CommonCommunicator.Lib.GuardedRun
import CommonCommunicator.Lib.PartialMap
import CommonCommunicator.Lib.ByteBuffer
import CommonCommunicator.Lib.ByteOrder
import CommonCommunicator.Base.Outcome
import CommonCommunicator.Base.RawMessage
import CommonCommunicator.Protocol.Interface
import CommonCommunicator.Protocol.FixedHeader
import CommonCommunicator.Protocol.UniversalCmd
import CommonCommunicator.Protocol.UniversalGrammar
import CommonCommunicator.Protocol.Chain
import CommonCommunicator.Protocol.Shipped
import CommonCommunicator.Protocol.MessageJob
import CommonCommunicator.Lib.StreamCut
import CommonCommunicator.Protocol.MalformedInput
import CommonCommunicator.Provider.TcpRead
import CommonCommunicator.Provider.Framing
import CommonCommunicator.Protocol.ChainRoundTrip
import CommonCommunicator.Protocol.CodecRoundTrip
import CommonCommunicator.Protocol.ShippedRoundTrip
import CommonCommunicator.Pool.StrandedJobs
import CommonCommunicator.Provider.SharedReadBuffer
import CommonCommunicator.Alias.Alias
import CommonCommunicator.Alias.AliasAddr
import CommonCommunicator.Alias.ConfigAliases
import CommonCommunicator.Provider.TcpProvider
import CommonCommunicator.Provider.TcpEffects
import CommonCommunicator.Provider.KeyCoherence
import CommonCommunicator.Provider.SocketTable
import CommonCommunicator.Provider.PeerTakeover
import CommonCommunicator.Provider.ConnectionRun
import CommonCommunicator.Provider.ConnectionEvents
import CommonCommunicator.Protocol.HeaderUnion
import CommonCommunicator.Protocol.Fragmentation
import CommonCommunicator.Protocol.UniversalRoundTrip
import CommonCommunicator.Alias.ConnectedPeers
import CommonCommunicator.Communicator.ChainSlots
import CommonCommunicator.Pool.JobOrder
import CommonCommunicator.Provider.ClientSocket
import CommonCommunicator.Provider.UdpEvents
import CommonCommunicator.Alias.AliasBijection
import CommonCommunicator.Alias.ComparedAliasAddr
import CommonCommunicator.Base.CString
import CommonCommunicator.Inet.AliasCompare
import CommonCommunicator.Pool.ForgottenWorkers
import CommonCommunicator.Pool.ThrowingJobs
import CommonCommunicator.Protocol.ChainElements
import CommonCommunicator.Protocol.CleanData
import CommonCommunicator.Provider.FailedConnection
import CommonCommunicator.Provider.PeerNames
import CommonCommunicator.Provider.DatagramSender
import CommonCommunicator.Alias.AliasDocument
import CommonCommunicator.Alias.AliasLoading
import CommonCommunicator.Alias.ProviderStore
import CommonCommunicator.Communicator.SenderNames
import CommonCommunicator.Protocol.MessageSlices
import CommonCommunicator.Protocol.PropertyArrival
import CommonCommunicator.Protocol.SegmentBounds
import CommonCommunicator.Communicator.KeptPayload
import CommonCommunicator.Communicator.RepliedPayload
import CommonCommunicator.Communicator.ForceExit
import CommonCommunicator.Pool.LockOrder
import CommonCommunicator.Base.MessageStorage
import CommonCommunicator.Communicator.ProviderPort
import CommonCommunicator.Provider.ConnectedSocket
import CommonCommunicator.Json.MovingReads
import CommonCommunicator.Json.RepeatedReads
import CommonCommunicator.Inet.UdsFiles
import CommonCommunicator.Lib.Census
import CommonCommunicator.Lib.HistoryReads
import CommonCommunicator.Lib.ReadersWriter
import CommonCommunicator.Lib.SessionTable
import CommonCommunicator.Lib.WaitSets
import CommonCommunicator.Lock.LockMoves
import CommonCommunicator.Lock.LockSections
import CommonCommunicator.Lock.LostWakeups
import CommonCommunicator.Provider.ConnectionReaders
import CommonCommunicator.Provider.MessageNames
import CommonCommunicator.Provider.TcpDelivery
import CommonCommunicator.Communicator.AddressBook
import CommonCommunicator.Communicator.DescribedProcesses
import CommonCommunicator.Json.MemberReads
import CommonCommunicator.Protocol.Description
import CommonCommunicator.Protocol.LoadedChains
