import Ptptl.Library.Chunked
import Ptptl.Library.Arrivals
import Ptptl.Library.Events
import Ptptl.Library.CInt
import Ptptl.Library.Keystream
import Ptptl.Library.Search
import Ptptl.Library.Runs
import Ptptl.Library.Secrets
import Ptptl.Library.Memory
import Ptptl.Library.Rings
import Ptptl.Ptp.Types
import Ptptl.Ptp.Lists
import Ptptl.Ptp.Foreach
import Ptptl.Ptp.Loops
import Ptptl.Library.Sections
import Ptptl.Ptp.SharedLists
import Ptptl.Ptp.SharedRuns
import Ptptl.Ptp.SharedForeach
import Ptptl.Ptp.CString
import Ptptl.Ptp.Connection
import Ptptl.Ptp.Encode
import Ptptl.Ptp.EncodeText
import Ptptl.Ptp.EncodeBuffer
import Ptptl.Ptp.Http
import Ptptl.Ptp.HttpText
import Ptptl.Ptp.HttpStops
import Ptptl.Ptp.HttpRoundTrip
import Ptptl.Ptp.Key
import Ptptl.Ptp.KeyStream
import Ptptl.Ptp.Identity
import Ptptl.Ptp.Authenticator
import Ptptl.Ptp.Exchange
import Ptptl.Ptp.Pkcs12
import Ptptl.Ptp.Store
import Ptptl.Ptp.StoreBags
import Ptptl.Ptp.StoreRoundTrip
import Ptptl.Ptp.StoreReachable
import Ptptl.Ptp.StoreImport
import Ptptl.Ptp.Collection
import Ptptl.Ptp.Scan
import Ptptl.Ptp.CollectionRuns
import Ptptl.Trut.Gnutella
import Ptptl.Trut.Groups
import Ptptl.Trut.Put
import Ptptl.Sfs.Share
import Ptptl.Sfs.Certified
import Ptptl.Ptp.StoreFind
import Ptptl.Cert.Insert
import Ptptl.Sfs.Insert
import Ptptl.Sfs.Auth
import Ptptl.Sfs.Network
import Ptptl.Sfs.Agreement
import Ptptl.Cert.Hygiene
import Ptptl.Trut.Search
import Ptptl.Trut.SecureSearch
import Ptptl.Trut.Peer
import Ptptl.Trut.Joins
import Ptptl.Trut.Keys
import Ptptl.Trut.References
import Ptptl.Trut.Mirror
import Ptptl.Trut.OneKey
import Ptptl.Trut.Auth
import Ptptl.Trut.AuthText
import Ptptl.Trut.Handshake
import Ptptl.Trut.Completes
import Ptptl.Trut.Authentic
import Ptptl.Trut.Answers
import Ptptl.Library.Glob
import Ptptl.Ptp.Pattern
import Ptptl.Trut.Discovery
import Ptptl.Ptp.HexText
import Ptptl.Sfs.Page
import Ptptl.Sfs.Fetch
import Ptptl.Ptp.PatternBounds
import Ptptl.Trut.Bounds
import Ptptl.Ptp.EncodeCapacity
import Ptptl.Ptp.PatternMeaning
import Ptptl.Ptp.Extensions
import Ptptl.Library.Worklist
import Ptptl.Ptp.ScanTree
import Ptptl.Ptp.ScanExact
import Ptptl.Library.Cursor
import Ptptl.Ptp.FindNext
import Ptptl.Ptp.PushBack
import Ptptl.Ptp.HttpPeek
import Ptptl.Ptp.HttpBoundary
import Ptptl.Ptp.HttpMessage
import Ptptl.Ptp.HttpLimits
import Ptptl.Ptp.Accept
import Ptptl.Ptp.Lookup
import Ptptl.Library.Pieces
import Ptptl.Ptp.Transfer
import Ptptl.Library.Bounded
import Ptptl.Ptp.StreamBounds
import Ptptl.Ptp.StreamInside
import Ptptl.Ptp.StoreLoad
import Ptptl.Ptp.StoreSave
import Ptptl.Ptp.StoreSecret
import Ptptl.Ptp.PublicKeys
import Ptptl.Cert.Nameless
import Ptptl.Ptp.SessionKeys
import Ptptl.Trut.WholePackets
import Ptptl.Sfs.PageBounds
import Ptptl.Library.Records
import Ptptl.Sfs.Responses
import Ptptl.Trut.AuthFields
import Ptptl.Ptp.StreamSizes
import Ptptl.Trut.PutAnswers
import Ptptl.Trut.PutLength
import Ptptl.Sfs.GetLength
import Ptptl.Ptp.Envelope
import Ptptl.Sfs.Envelopes
import Ptptl.Trut.KeyTransfer
import Ptptl.Cert.Lifetime
import Ptptl.Sfs.Options
import Ptptl.Trut.AnswerBuffer
import Ptptl.Ptp.HttpSent
import Ptptl.Ptp.Received
import Ptptl.Sfs.Download
import Ptptl.Sfs.Browse
import Ptptl.Library.Handles
import Ptptl.Ptp.Sockets
import Ptptl.Ptp.SocketRuns
import Ptptl.Trut.Fetch
import Ptptl.Trut.Download
import Ptptl.Sfs.Wire
import Ptptl.Sfs.Session
import Ptptl.Trut.Hosts
import Ptptl.Trut.Mesh
import Ptptl.Trut.MeshRuns
import Ptptl.Trut.MeshOrigins
