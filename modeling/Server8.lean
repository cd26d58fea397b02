import Server8.Protocol.RoundTrip
import Server8.Protocol.Lines
import Server8.Session.Refinement
import Server8.Session.Manager
import Server8.IOCP.Registry
import Server8.IOCP.Framing
import Server8.IOCP.Receiving
import Server8.IOCP.Closing
import Server8.IOCP.Shutdown
import Server8.IOCP.Statistics
import Server8.IOCP.Ownership
import Server8.Lib.WorkQueue
import Server8.Dispatcher.Conservation
import Server8.Dispatcher.Steps
import Server8.IOCP.Boundaries
import Server8.Lib.Ownership
import Server8.Log.LogModule
import Server8.IOCP.SendData
import Server8.Session.Slots
import Server8.Session.Values
import Server8.Dispatcher.Registration
import Server8.Indexer.Chunked
import Server8.Indexer.HTTPRequest
import Server8.Indexer.Statements
import Server8.Svrutil.CriticalSection
import Server8.Svrutil.Decompress
import Server8.Svrutil.Zlib
import Server8.Session.KeyValue
import Server8.IOCP.Splicing
import Server8.Indexer.GetData
import Server8.Dispatcher.Custody
import Server8.Indexer.Indexer3
import Server8.Indexer.Coverage
import Server8.Indexer.Indexer2
import Server8.Indexer.Items
import Server8.Indexer.Schedules
import Server8.Indexer.Owners
import Server8.IOCP.Users
import Server8.IOCP.Reader
import Server8.IOCP.Streams
import Server8.IOCP.Delivery
