import Facebooc.CMemory
import Facebooc.LinearProbe
import Facebooc.Rings
import Facebooc.ListRing
import Facebooc.HashMap
import Facebooc.HashMapInvariant
import Facebooc.HashMapRefine
import Facebooc.HashMapErase
import Facebooc.ProbeOrder
import Facebooc.HashMapGrowth
import Facebooc.Crowding
import Facebooc.HashMapReinsert
import Facebooc.TreeZipper
import Facebooc.RbTree
import Facebooc.RbTreeOrder
import Facebooc.RbTreeOps
import Facebooc.BlackHeight
import Facebooc.RbBalance
import Facebooc.TreeWalk
import Facebooc.RbOrderedSet
import Facebooc.Map
import Facebooc.MapRefine
import Facebooc.Page
import Facebooc.Calendar
import Facebooc.Time
import Facebooc.Template
import Facebooc.TemplateContext
import Facebooc.HashMapOverwrite
import Facebooc.TemplateHoles
import Facebooc.StringSearch
import Facebooc.StringView
import Facebooc.SearchWindows
import Facebooc.TemplateTokens
import Facebooc.TemplateMeaning
import Facebooc.UrlCodec
import Facebooc.Header
import Facebooc.LineEnd
import Facebooc.HeaderLines
import Facebooc.CookieAttrs
import Facebooc.Cookies
import Facebooc.CookieRoundTrip
import Facebooc.Request
import Facebooc.FormRoundTrip
import Facebooc.UrlBuffers
import Facebooc.FormSegments
import Facebooc.RequestRoundTrip
import Facebooc.RequestLine
import Facebooc.Dispatch
import Facebooc.Receive
import Facebooc.FileTree
import Facebooc.StaticFiles
import Facebooc.Base64
import Facebooc.Database
import Facebooc.Account
import Facebooc.GetAccount
import Facebooc.Ranking
import Facebooc.LeftJoin
import Facebooc.Escape
import Facebooc.Posts
import Facebooc.LatestGraph
import Facebooc.Response
import Facebooc.StaticContent
import Facebooc.Handlers
import Facebooc.DisplayForm
import Facebooc.BasicStrings
import Facebooc.Pages
import Facebooc.PageBuffers
import Facebooc.PostTimes
import Facebooc.Signup
import Facebooc.Server
import Facebooc.PageShows
import Facebooc.Runs
import Facebooc.HeaderString
import Facebooc.ServerSteps
import Facebooc.SignupRuns
import Facebooc.SixBits
import Facebooc.Base64Bijection
import Facebooc.SearchFilter
import Facebooc.RelationRuns
import Facebooc.LikeHistory
import Facebooc.IntegrityRuns
import Facebooc.RouteIds
import Facebooc.AccountRoundTrip
import Facebooc.SessionCookie
import Facebooc.SessionRuns
import Facebooc.ModularWindow
import Facebooc.SessionIds
import Facebooc.LoginRuns
import Facebooc.EscapedPages
import Facebooc.HttpMessage
import Facebooc.ResponseWrite
import Facebooc.AnswerHeads
import Facebooc.Simulation
import Facebooc.Serve
import Facebooc.ClientRequests
import Facebooc.SessionWire
import Facebooc.Conversations
import Facebooc.EventLoop
import Facebooc.NumberedRows
import Facebooc.Network
import Facebooc.NetworkTables
import Facebooc.NetworkReads
import Facebooc.NetworkHistory
import Facebooc.Noninterference
import Facebooc.Isolation
import Facebooc.DashboardPrivacy
import Facebooc.CookieExpiry
import Facebooc.Ownership
import Facebooc.ListBlocks
import Facebooc.RequestBlocks
import Facebooc.ResponseBlocks
import Facebooc.ServeBlocks
