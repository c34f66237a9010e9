import Flood.Loop
import Flood.CString
import Flood.Net
import Flood.Subst
import Flood.Template
import Flood.TemplateSubstitution
import Flood.SocketGeneric
import Flood.Profile
import Flood.RoundRobin
import Flood.RoundRobinRun
import Flood.TemplateText
import Flood.SocketKeepalive
import Flood.KeepaliveRun
import Flood.KeepaliveConnections
import Flood.HeaderBlock
import Flood.ContentLength
import Flood.KeepaliveResponses
import Flood.LoadedResponses
import Flood.ChunkedBody
import Flood.ChunkedReads
import Flood.ChunkedResponses
import Flood.SimpleReports
import Flood.HttpText
import Flood.CreateReq
import Flood.Postprocess
import Flood.CookieRun
import Flood.LatestCookies
import Flood.Config
import Flood.Farm
import Flood.ProfileTables
import Flood.InitializeEvents
import Flood.InTurn
import Flood.ExtraHeaders
import Flood.UrlElement
import Flood.ProfileInit
import Flood.UrllistSteps
import Flood.SlotCount
import Flood.UrllistExpansion
import Flood.HeaderMemory
import Flood.InitAgain
import Flood.ReceiveBuffers
import Flood.ExtraHeaderLines
import Flood.CookieBounds
import Flood.HttpHeaders
import Flood.ChunkedBounds
import Flood.DrainRequests
import Flood.LoadBounds
import Flood.ChunkWalk
import Flood.UnlistedSequences
import Flood.UnknownNames
import Flood.UnescapeInPlace
import Flood.SubstLines
import Flood.SubstLists
import Flood.PassThrough
import Flood.ScriptInput
import Flood.GenericReads
import Flood.SslSocket
import Flood.VerifyStatus
import Flood.ChunkBoundaries
import Flood.MethodToken
import Flood.DecimalText
import Flood.Farmer
import Flood.RoundCounts
import Flood.Delays
import Flood.PayloadFile
import Flood.StaggeredStart
import Flood.ChildMatch
import Flood.Pieces
import Flood.SequenceItems
import Flood.Alternation
import Flood.EventLog
import Flood.Timers
import Flood.ReportLines
import Flood.Mutex
import Flood.SharedReport
import Flood.OpenSockets
import Flood.FarmerLoad
import Flood.SessionVars
import Flood.ForkJoin
import Flood.FarmRun
import Flood.Framing
import Flood.RequestStream
import Flood.Conversation
import Flood.SocketAgreement
import Flood.PlannedReport
