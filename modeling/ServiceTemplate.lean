import ServiceTemplate.TransitionSystem
import ServiceTemplate.IdempotencyRecord
import ServiceTemplate.IdempotencyArbitration
import ServiceTemplate.IdempotencyIdentity
import ServiceTemplate.IdempotencyReplay
import ServiceTemplate.JobsLedger
import ServiceTemplate.JobsSystem
import ServiceTemplate.JobsRowInvariant
import ServiceTemplate.JobsFencing
import ServiceTemplate.JobsOperator
import ServiceTemplate.HealthReadiness
import ServiceTemplate.HealthLatches
import ServiceTemplate.Utf8Text
import ServiceTemplate.MessagingText
import ServiceTemplate.MessagingWire
import ServiceTemplate.MessagingDeadLetter
import ServiceTemplate.Base64
import ServiceTemplate.MessagingOutbox
import ServiceTemplate.MessagingConsumer
import ServiceTemplate.MessagingSettlement
import ServiceTemplate.MessagingTransport
import ServiceTemplate.PostgresTransaction
import ServiceTemplate.ServiceTokens
import ServiceTemplate.WebhookProtocol
import ServiceTemplate.JsonText
import ServiceTemplate.WebhookInbound
import ServiceTemplate.WebhookAdmission
import ServiceTemplate.JwksRefresh
import ServiceTemplate.BearerClaims
import ServiceTemplate.FormText
import ServiceTemplate.BearerIntrospection
import ServiceTemplate.OAuthTokens
import ServiceTemplate.OAuthAcquisition
import ServiceTemplate.ObjectDownload
import ServiceTemplate.ObjectDelivery
import ServiceTemplate.BinarySearch
import ServiceTemplate.HttpContract
import ServiceTemplate.CustodyCell
import ServiceTemplate.GrpcResponse
import ServiceTemplate.GrpcTerminal
import ServiceTemplate.ServiceTokenSource
import ServiceTemplate.ServiceTokenInterop
import ServiceTemplate.KeyedRuns
import ServiceTemplate.LogCapture
import ServiceTemplate.LogRecord
import ServiceTemplate.LogRecordShape
import ServiceTemplate.ExactLength
import ServiceTemplate.ObjectUpload
import ServiceTemplate.CacheLink
import ServiceTemplate.CacheFencing
import ServiceTemplate.JobsSelection
import ServiceTemplate.JobsCapacity
import ServiceTemplate.OutboxPreflight
import ServiceTemplate.KeysetPaging
import ServiceTemplate.JobsInspection
import ServiceTemplate.HealthWatch
import ServiceTemplate.MessagingTransfer
import ServiceTemplate.BearerParsing
import ServiceTemplate.JsonTree
import ServiceTemplate.JobsPayload
import ServiceTemplate.WebhookOutbound
import ServiceTemplate.JsonPaths
import ServiceTemplate.SortedMap
import ServiceTemplate.MessagingContract
import ServiceTemplate.ConfigNames
import ServiceTemplate.ConfigFiles
import ServiceTemplate.LogAccounting
import ServiceTemplate.SpanCaches
import ServiceTemplate.JobsBatch
import ServiceTemplate.JobsCompletion
import ServiceTemplate.CompletionCustody
import ServiceTemplate.Deadlines
import ServiceTemplate.OperationContexts
import ServiceTemplate.MigrationOrder
import ServiceTemplate.PullLoop
import ServiceTemplate.GrpcTimeout
import ServiceTemplate.GrpcDeadlines
import ServiceTemplate.GrpcRegistry
import ServiceTemplate.GrpcAdmission
import ServiceTemplate.JwkAdmission
import ServiceTemplate.JwtSignature
import ServiceTemplate.FileSystem
import ServiceTemplate.FilePlans
import ServiceTemplate.FilePlanRuns
import ServiceTemplate.ProfileMarkers
import ServiceTemplate.MarkerSelection
import ServiceTemplate.MessagingIdentity
import ServiceTemplate.PrefixMatch
import ServiceTemplate.SniffDeadline
import ServiceTemplate.JobsWakeup
import ServiceTemplate.JobsLeases
import ServiceTemplate.HttpSettings
import ServiceTemplate.MigrationRuns
import ServiceTemplate.ServiceTeardown
import ServiceTemplate.ServiceLifecycle
import ServiceTemplate.ServiceExit
import ServiceTemplate.IdempotencyExchange
import ServiceTemplate.FairSemaphore
import ServiceTemplate.HttpAdmission
