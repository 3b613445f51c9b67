import HttpServer.RouteConcurrency
import HttpServer.IpAccessControl
import HttpServer.HookRegistrations
import HttpServer.ExceptionContainment
import HttpServer.ResponseSent
import HttpServer.Lifecycle
import HttpServer.RequestDump
import HttpServer.RouteMatching
import HttpServer.WsRegistry
import HttpServer.NeutralPair
import HttpServer.CollisionGuard
import HttpServer.RoutedMethods
import HttpServer.DaemonLifecycle
import HttpServer.PathPieces
import HttpServer.ChunkOffsets
import HttpServer.QueryEncoding
import HttpServer.MemoryUpload
import HttpServer.PathNormalization
import HttpServer.EndpointKey
import HttpServer.TrieLookup
import HttpServer.RouteCacheStore
import HttpServer.IpAcceptance
import HttpServer.IpAccesses
import HttpServer.PeerAddressRoundTrip
import HttpServer.CookieParsing
import HttpServer.ExpiryDates
import HttpServer.ResponseFields
import HttpServer.ChallengeRealm
import HttpServer.ErrorLog
import HttpServer.BodyDescriptors
import HttpServer.UploadPaths
import HttpServer.FirstHooks
import HttpServer.MapComparators
import HttpServer.AllowHeader
import HttpServer.WebSocketStream
import HttpServer.UploadCleanup
