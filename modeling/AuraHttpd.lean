import AuraHttpd.Lib.Run
import AuraHttpd.Lib.Search
import AuraHttpd.Lib.CString
import AuraHttpd.Lib.Percent
import AuraHttpd.Lib.PrefixTable
import AuraHttpd.Lib.LexicalPath
import AuraHttpd.Lib.Script
import AuraHttpd.Lib.IdStore
import AuraHttpd.Lib.Chain
import AuraHttpd.Json
import AuraHttpd.JsonHelpers
import AuraHttpd.Aura
import AuraHttpd.Serdes
import AuraHttpd.Format
import AuraHttpd.FormatScan
import AuraHttpd.Evhttp
import AuraHttpd.Vfs
import AuraHttpd.CallResource
import AuraHttpd.FsNode
import AuraHttpd.CallLedger
import AuraHttpd.Evbuffer
import AuraHttpd.Entity
import AuraHttpd.Upload
import AuraHttpd.ChainBuffer
import AuraHttpd.UploadModules
import AuraHttpd.UploadBuffer
import AuraHttpd.UploadScan
import AuraHttpd.BodyScan
import AuraHttpd.BodyParts
import AuraHttpd.Multipart
import AuraHttpd.Server
import AuraHttpd.Mime
import AuraHttpd.FsStatic
import AuraHttpd.FsV4l2
import AuraHttpd.Config
import AuraHttpd.Proofs.Serdes
import AuraHttpd.Proofs.Format
import AuraHttpd.Proofs.FormatScan
import AuraHttpd.Proofs.Arguments
import AuraHttpd.Proofs.CallSteps
import AuraHttpd.Proofs.CallLifetime
import AuraHttpd.Proofs.CallDelivery
import AuraHttpd.Proofs.CallReclaim
import AuraHttpd.Proofs.CallRoutes
import AuraHttpd.Proofs.NodeSteps
import AuraHttpd.Proofs.NodeTable
import AuraHttpd.Proofs.NodeEvents
import AuraHttpd.Proofs.NodeCalls
import AuraHttpd.Proofs.Unmount
import AuraHttpd.Proofs.UploadScan
import AuraHttpd.Proofs.AfterError
import AuraHttpd.Proofs.Multipart
import AuraHttpd.Proofs.HeaderLines
import AuraHttpd.Proofs.BodyScan
import AuraHttpd.Proofs.FlatScan
import AuraHttpd.Proofs.Termination
import AuraHttpd.Proofs.Extents
import AuraHttpd.Proofs.BufferSteps
import AuraHttpd.Proofs.UploadReplies
import AuraHttpd.Proofs.BufferStore
import AuraHttpd.Proofs.BufferIds
import AuraHttpd.Proofs.Downloads
import AuraHttpd.Proofs.BufferSize
import AuraHttpd.Proofs.BufferBound
import AuraHttpd.Proofs.BufferLifetime
import AuraHttpd.Proofs.RouteViews
import AuraHttpd.Proofs.OwnRecords
import AuraHttpd.Proofs.Fragmentation
import AuraHttpd.Proofs.EncodedScan
import AuraHttpd.Proofs.RoundTrip
import AuraHttpd.Proofs.Preamble
import AuraHttpd.Proofs.Truncation
import AuraHttpd.Proofs.Disposition
import AuraHttpd.Proofs.UploadedFiles
import AuraHttpd.Proofs.CallPaths
import AuraHttpd.Proofs.RefusedCalls
import AuraHttpd.Proofs.Mounting
import AuraHttpd.Proofs.LoadRuns
import AuraHttpd.Proofs.StaticRoutes
import AuraHttpd.Proofs.StaticFiles
import AuraHttpd.Proofs.MimeTypes
import AuraHttpd.Proofs.Iovec
import AuraHttpd.Proofs.StaticQueries
import AuraHttpd.Proofs.Boundary
import AuraHttpd.ValueBlock
import AuraHttpd.Proofs.ValueBlock
import AuraHttpd.V4l2Read
import AuraHttpd.V4l2Mount
import AuraHttpd.Proofs.Grabbers
import AuraHttpd.Proofs.Streaming
import AuraHttpd.Proofs.Descriptors
import AuraHttpd.AuraClient
import AuraHttpd.Proofs.ClientSteps
import AuraHttpd.Proofs.AuraClient
import AuraHttpd.Proofs.ClientProgress
import AuraHttpd.Proofs.EventDelivery
import AuraHttpd.Proofs.Isolation
import AuraHttpd.Lib.BinarySearch
import AuraHttpd.Lib.Utf8
import AuraHttpd.Proofs.Entities
import AuraHttpd.Proofs.EntityUtf8
import AuraHttpd.Lifecycle
import AuraHttpd.Proofs.Lifecycle
import AuraHttpd.Proofs.LifeRoutes
import AuraHttpd.Proofs.NormalForm
import AuraHttpd.Proofs.Listing
import AuraHttpd.Proofs.StoredFiles
