import Fluo.Di.Settles
import Fluo.Di.Captive
import Fluo.Di.Plans
import Fluo.Jwt.Refresh
import Fluo.Runtime.Lifecycle
import Fluo.Core.Decorators
import Fluo.Core.CloneGraphs
import Fluo.CacheManager.Interceptor
import Fluo.CacheManager.Remember
import Fluo.Serialization.Metadata
import Fluo.Http.RequestScope
import Fluo.Http.AtMostOnce
import Fluo.Http.FastPath
import Fluo.OpenApi.Integrity
import Fluo.Http.Selectable
import Fluo.Throttler.Guard
import Fluo.Http.RateLimit
import Fluo.Cron.DistributedLockManager
import Fluo.Cron.SchedulingRegistry
import Fluo.Cqrs.SagaDeadlock
import Fluo.Prisma.Shutdown
import Fluo.Runtime.RequestBody
import Fluo.Microservices.TcpFraming
import Fluo.Config.Load
import Fluo.Config.Reload
import Fluo.Jwt.RoundTrip
import Fluo.I18n.Keys
import Fluo.Passport.Guard
import Fluo.Mongoose.Shutdown
import Fluo.Websockets.Ordering
import Fluo.SocketIo.Ordering
import Fluo.Di.Atomicity
import Fluo.Di.ScopeChecks
import Fluo.Drizzle.Outcome
import Fluo.Email.Ownership
import Fluo.Microservices.Mqtt
import Fluo.Runtime.WebStream
import Fluo.Cli.NodeRestart
import Fluo.Platform.Bun
import Fluo.Platform.Fastify
import Fluo.Runtime.WebBody
import Fluo.Queue.Rehydration
import Fluo.Http.ContentNegotiation
import Fluo.Runtime.ShellOutcome
import Fluo.Di.DisposalOrder
import Fluo.Graphql.Guardrails
import Fluo.Http.Sse
import Fluo.Terminus.HealthCheck
import Fluo.I18n.LocaleResolution
import Fluo.Websockets.Rooms
import Fluo.Microservices.GrpcReader
import Fluo.Microservices.Lifecycle
import Fluo.Notifications.Events
import Fluo.Validation.MappedRules
import Fluo.Metrics.PathLabels
import Fluo.Cli.UpdateCheck
import Fluo.Cli.PackageCache
import Fluo.Runtime.GlobalPrefix
import Fluo.Http.Binding
import Fluo.CacheManager.RedisStore
import Fluo.Testing.OverrideModule
import Fluo.Graphql.OperationContainers
import Fluo.Microservices.Kafka
