import Relay.Backoff
import Relay.Broker
import Relay.Bytes
import Relay.Chunk
import Relay.Chunk.Assembly
import Relay.Chunk.Session
import Relay.Chunk.Store
import Relay.Component
import Relay.Config
import Relay.Config.Apply
import Relay.Config.Path
import Relay.Config.Reading
import Relay.Config.Source
import Relay.Config.Tree
import Relay.Config.Yaml
import Relay.Config.Yaml.Cursor
import Relay.Config.Yaml.Layout
import Relay.Config.Yaml.Node
import Relay.Config.Yaml.Scalar
import Relay.Config.Yaml.Token
import Relay.Consumer.Attempt
import Relay.Consumer.Settings
import Relay.Consumer.Signal
import Relay.Consumer.Worker
import Relay.Double
import Relay.Endpoint
import Relay.Engine
import Relay.Envelope
import Relay.ErrorCode
import Relay.Fault
import Relay.Flow
import Relay.Headers
import Relay.InboundLog
import Relay.InboundLog.Session
import Relay.Invocation
import Relay.Json
import Relay.Json.Normal
import Relay.Json.Parser
import Relay.Lowercase
import Relay.Message
import Relay.Numeral
import Relay.Pipeline
import Relay.Policy
import Relay.Policy.Config
import Relay.Producer
import Relay.Proofs.Acceptance
import Relay.Proofs.Accounting
import Relay.Proofs.Answers
import Relay.Proofs.Assembly
import Relay.Proofs.Backends
import Relay.Proofs.Bytes
import Relay.Proofs.Chunk
import Relay.Proofs.Configuration
import Relay.Proofs.Confinement
import Relay.Proofs.Connection
import Relay.Proofs.Consumer.Acknowledgement
import Relay.Proofs.Consumer.Attempt
import Relay.Proofs.Consumer.BatchLoop
import Relay.Proofs.Consumer.Batching
import Relay.Proofs.Consumer.Cancellation
import Relay.Proofs.Consumer.Course
import Relay.Proofs.Consumer.Deduplication
import Relay.Proofs.Consumer.Derived
import Relay.Proofs.Consumer.GivenUp
import Relay.Proofs.Consumer.Missing
import Relay.Proofs.Consumer.Orphans
import Relay.Proofs.Consumer.Outbox
import Relay.Proofs.Consumer.Perseverance
import Relay.Proofs.Consumer.Traceless
import Relay.Proofs.Consumer.Trail
import Relay.Proofs.Cutting
import Relay.Proofs.Decision
import Relay.Proofs.Delivery
import Relay.Proofs.Denial
import Relay.Proofs.Dialogue
import Relay.Proofs.Discretion
import Relay.Proofs.Edits
import Relay.Proofs.Effects
import Relay.Proofs.Endpoints
import Relay.Proofs.Flow
import Relay.Proofs.Foresight
import Relay.Proofs.Headers
import Relay.Proofs.Intake
import Relay.Proofs.Json
import Relay.Proofs.Ledger
import Relay.Proofs.Lifecycle
import Relay.Proofs.Numeral
import Relay.Proofs.Obliging
import Relay.Proofs.Outline
import Relay.Proofs.Overlap
import Relay.Proofs.Participants
import Relay.Proofs.Partition
import Relay.Proofs.Policy
import Relay.Proofs.PolicyConfig
import Relay.Proofs.Position
import Relay.Proofs.Producer
import Relay.Proofs.Progress
import Relay.Proofs.Publication
import Relay.Proofs.Record
import Relay.Proofs.Registry
import Relay.Proofs.Reliability
import Relay.Proofs.Retry
import Relay.Proofs.Routing
import Relay.Proofs.Runs
import Relay.Proofs.Schedule
import Relay.Proofs.Selection
import Relay.Proofs.Session
import Relay.Proofs.Settlement
import Relay.Proofs.Stoppage
import Relay.Proofs.StoreCall
import Relay.Proofs.Stores
import Relay.Proofs.Subscription
import Relay.Proofs.Talk
import Relay.Proofs.Transaction
import Relay.Proofs.Wholeness
import Relay.Proofs.World
import Relay.Publish.Error
import Relay.Publisher
import Relay.Record
import Relay.Registry
import Relay.Resolver
import Relay.Router
import Relay.Scope
import Relay.Script.Behavior
import Relay.Script.Bench
import Relay.Script.Cipher
import Relay.Script.Format
import Relay.Script.Format.Parts
import Relay.Script.Handler
import Relay.Script.Note
import Relay.Script.Resolver
import Relay.Script.Sample
import Relay.Script.Setup
import Relay.Script.Stage
import Relay.Settlement
import Relay.Store
import Relay.Subscriber
import Relay.Table
import Relay.Topic
import Relay.Transaction
import Relay.Transport
import Relay.World
