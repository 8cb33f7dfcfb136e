import DCScan.Lib.System
import DCScan.Lib.Bytes
import DCScan.Lib.Table
import DCScan.Message
import DCScan.ByteQueue
import DCScan.Framing
import DCScan.Registry
import DCScan.Session
import DCScan.SessionCalls
import DCScan.SessionUnique
import DCScan.Agreement
import DCScan.ReplySlot
import DCScan.Promises
import DCScan.EventDispatch
import DCScan.Server
import DCScan.Connections
import DCScan.Sessions
import DCScan.Outbound
import DCScan.Subscribers
import DCScan.Generator
import DCScan.Marshalling
import DCScan.WireCodes
import DCScan.Requests
import DCScan.Capacity
import DCScan.Malformed
import DCScan.ControllerReplies
import DCScan.Release
import DCScan.Sockets
import DCScan.Authentic
import DCScan.Handshakes
import DCScan.NotUnique
import DCScan.NextSession
import DCScan.Lib.Keyed
import DCScan.Rdb
import DCScan.Lib.Quoted
import DCScan.Variables
import DCScan.Users
import DCScan.Lookups
import DCScan.Cache
import DCScan.ControlService
import DCScan.Motion
import DCScan.Acquisition
import DCScan.Lib.Unwritten
import DCScan.SentBytes
import DCScan.Lib.Writes
import DCScan.Transmission
import DCScan.Lib.Runs
import DCScan.Lib.Binary64
import DCScan.Lib.Crc
import DCScan.Counting
import DCScan.Cuts
import DCScan.Mca
import DCScan.CountEvents
import DCScan.Crypto
import DCScan.Receiving
import DCScan.Sizes
import DCScan.FixedBuffers
import DCScan.BasicStrings
import DCScan.Queries
import DCScan.Temperature
import DCScan.Encoder
import DCScan.History
import DCScan.LifeCycle
import DCScan.EventBytes
import DCScan.Commands
import DCScan.EventTables
import DCScan.Vector
import DCScan.Strings
import DCScan.LinearAllocator
import DCScan.Suggestions
import DCScan.Mangling
import DCScan.SerialLines
import DCScan.Lib.Lines
import DCScan.Conditionals
import DCScan.Stripping
import DCScan.Scanner
import DCScan.Lib.Units
import DCScan.Timestamps
import DCScan.LegacyCounting
import DCScan.Lib.Decimal
import DCScan.Numbers
import DCScan.Lib.Simulation
import DCScan.Links
import DCScan.RemoteCalls
import DCScan.RemoteRequests
import DCScan.RemoteProgress
import DCScan.RemoteResults
import DCScan.Journal
import DCScan.AuditLog
import DCScan.AuditTrail
import DCScan.Lib.Linearizability
import DCScan.RemoteObject
import DCScan.DeviceLines
import DCScan.Lib.Lifetimes
import DCScan.TaskHandles
import DCScan.Credentials
import DCScan.ReferenceRun
import DCScan.TimestampStrings
import DCScan.EventStream
import DCScan.CountStream
import DCScan.Console
