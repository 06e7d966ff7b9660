import Agentive.Correlation
import Agentive.Identity
import Agentive.StoredPayloads
import Agentive.BatchCancellation
import Agentive.TreeBudget
import Agentive.TerminalOutcome
import Agentive.CommitAtomicity
import Agentive.TerminalStates
import Agentive.RunTermination
import Agentive.ReturnedHistory
import Agentive.UsageLedger
import Agentive.ContinueAsNew
import Agentive.DriverAgreement
import Agentive.DelegationPolicy
import Agentive.Fingerprint
import Agentive.ResidualEnvelope
import Agentive.BatchRoundTrip
import Agentive.FilesystemStorage
import Agentive.ImmutableObjects
import Agentive.JsonSchema
import Agentive.ToolSchema
import Agentive.ClosedSchemas
import Agentive.UsageSummary
import Agentive.DelegationReserve
import Agentive.ParallelBatches
import Agentive.FallbackRouter
import Agentive.ProviderRetries
import Agentive.FallbackOrder
import Agentive.HistoryBlocks
import Agentive.SnapshotCalls
import Agentive.ArgumentGates
import Agentive.ForkJoin
import Agentive.ToolConcurrency
import Agentive.UnknownFields
import Agentive.FedLoop
import Agentive.CodexTurn
import Agentive.TurnIsolation
import Agentive.TurnCompletion
import Agentive.FrozenTools
import Agentive.BoundedReads
import Agentive.StoredObjects
import Agentive.Base64
import Agentive.CodecServer
import Agentive.Cursors
import Agentive.Delimited
import Agentive.InstructionXml
import Agentive.ToolEntries
import Agentive.PathRecursion
import Agentive.ShapeRecursion
import Agentive.EventBus
import Agentive.EventDelivery
import Agentive.EventBackpressure
import Agentive.RunWatch
import Agentive.Exchange
import Agentive.CodexSession
import Agentive.CodexProtocol
import Agentive.CodexErrors
import Agentive.ActivityDelivery
import Agentive.DurableDelivery
import Agentive.DurableBudget
import Agentive.DocumentCodec
import Agentive.DurableDocuments
import Agentive.EffectDocuments
import Agentive.DurableWire
