import EasyGrpc.Library.Lists
import EasyGrpc.Library.Machine
import EasyGrpc.Library.Family
import EasyGrpc.Library.Quiescence
import EasyGrpc.Library.Outbox
import EasyGrpc.Library.FifoLink
import EasyGrpc.Library.Mutex
import EasyGrpc.Library.Ownership
import EasyGrpc.Library.RefCount
import EasyGrpc.Library.Recording
import EasyGrpc.Core.Error
import EasyGrpc.Core.Call
import EasyGrpc.Core.CompletionQueue
import EasyGrpc.Core.Promise
import EasyGrpc.Core.StreamPromise
import EasyGrpc.Core.Feed
import EasyGrpc.Core.Wire
import EasyGrpc.Core.Transfer
import EasyGrpc.Core.Protobuf
import EasyGrpc.Stream.Storage
import EasyGrpc.Stream.Proofs.Storage
import EasyGrpc.Stream.Proofs.Source
import EasyGrpc.Future.Storage
import EasyGrpc.Future.Lifetime
import EasyGrpc.Future.StoragePtr
import EasyGrpc.Future.Proofs.StoragePtr
import EasyGrpc.Future.Proofs.Storage
import EasyGrpc.Stream.Lifetime
import EasyGrpc.Stream.Proofs.Lifetime
import EasyGrpc.Stream.ForEach
import EasyGrpc.Stream.Proofs.ForEach
import EasyGrpc.Future.Chain
import EasyGrpc.Future.Proofs.Reference
import EasyGrpc.Future.Proofs.Chain
import EasyGrpc.Future.Promise
import EasyGrpc.Future.Join
import EasyGrpc.Future.Proofs.Promise
import EasyGrpc.Future.Proofs.Join
import EasyGrpc.Future.Conversions
import EasyGrpc.Future.Proofs.Conversions
import EasyGrpc.Library.DepthFirst
import EasyGrpc.Reflection.ReflectionImpl
import EasyGrpc.Reflection.Proofs.Closure
import EasyGrpc.Reflection.Proofs.Survival
import EasyGrpc.Library.Escape
import EasyGrpc.Library.Lines
import EasyGrpc.Codegen.Text
import EasyGrpc.Codegen.Descriptor
import EasyGrpc.Codegen.Generator
import EasyGrpc.Codegen.Reading
import EasyGrpc.Codegen.Proofs.Reading
import EasyGrpc.Codegen.Proofs.Routes
import EasyGrpc.Codegen.Proofs.Guards
import EasyGrpc.Codegen.Proofs.Names
import EasyGrpc.Queue.Multiplexing
import EasyGrpc.Queue.Parties
import EasyGrpc.Queue.Proofs.Parties
import EasyGrpc.Queue.Proofs.Multiplexing
import EasyGrpc.Queue.Proofs.Dispatch
import EasyGrpc.Queue.Proofs.Settling
import EasyGrpc.Client.Unary
import EasyGrpc.Client.BidirStreaming
import EasyGrpc.Client.BidirCallbacks
import EasyGrpc.Client.ServerStreaming
import EasyGrpc.Client.ClientStreaming
import EasyGrpc.Client.Channel
import EasyGrpc.Client.FailedStart
import EasyGrpc.Client.Proofs.BidirStreaming
import EasyGrpc.Client.Proofs.BidirProgress
import EasyGrpc.Client.Proofs.ServerStreaming
import EasyGrpc.Client.Proofs.StartCall
import EasyGrpc.Client.Proofs.ClientStreaming
import EasyGrpc.Client.Proofs.SettleOnce
import EasyGrpc.Client.Proofs.FinalError
import EasyGrpc.Client.Proofs.HalfClose
import EasyGrpc.Client.Proofs.Channel
import EasyGrpc.Client.Proofs.FailedStart
import EasyGrpc.Server.Unary
import EasyGrpc.Server.BidirStreaming
import EasyGrpc.Server.BidirCallbacks
import EasyGrpc.Server.ServerStreaming
import EasyGrpc.Server.StreamingThreads
import EasyGrpc.Server.ClientStreaming
import EasyGrpc.Server.Listener
import EasyGrpc.Server.Config
import EasyGrpc.Server.Objects
import EasyGrpc.Server.Inbound
import EasyGrpc.Server.Proofs.BidirStreaming
import EasyGrpc.Server.Proofs.BidirProgress
import EasyGrpc.Server.Proofs.ServerStreaming
import EasyGrpc.Server.Proofs.StreamingThreads
import EasyGrpc.Server.Proofs.ClientStreaming
import EasyGrpc.Server.Proofs.Listener
import EasyGrpc.Server.Proofs.Config
import EasyGrpc.Server.Proofs.Objects
import EasyGrpc.Server.Proofs.Inbound
import EasyGrpc.Server.Proofs.EarlyReply
import EasyGrpc.Server.Proofs.FailingReplies
import EasyGrpc.Rpc.Unary
import EasyGrpc.Rpc.Service
import EasyGrpc.Rpc.BidirStreaming
import EasyGrpc.Rpc.Messages
import EasyGrpc.Rpc.ServerStreaming
import EasyGrpc.Rpc.ClientStreaming
import EasyGrpc.Rpc.Proofs.BidirStreaming
import EasyGrpc.Rpc.Proofs.Messages
import EasyGrpc.Rpc.Proofs.ServerStreaming
import EasyGrpc.Rpc.Proofs.StreamingProgress
import EasyGrpc.Rpc.Proofs.UploadProgress
import EasyGrpc.Rpc.Proofs.UnaryProgress
import EasyGrpc.Rpc.Proofs.Service
import EasyGrpc.Rpc.Proofs.ServiceProgress
import EasyGrpc.Queue.Proofs.Classes
import EasyGrpc.Rpc.Proofs.BidirProgress
import EasyGrpc.Rpc.Reflection
import EasyGrpc.Rpc.Proofs.Reflection
import EasyGrpc.Rpc.Proofs.Failure
import EasyGrpc.Rpc.Proofs.ClientStreaming
import EasyGrpc.Rpc.Proofs.Outcome
import EasyGrpc.Rpc.Proofs.BidirCallbacks
import EasyGrpc.Queue.CallOrder
import EasyGrpc.Queue.Proofs.CallOrder
import EasyGrpc.Queue.Proofs.HandlerOrder
import EasyGrpc.Queue.Proofs.SessionOrder
import EasyGrpc.Queue.Proofs.Assertions
