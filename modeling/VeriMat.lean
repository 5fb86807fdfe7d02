import VeriMat.ArtifactBindings
import VeriMat.PyText
import VeriMat.JsonText
import VeriMat.JsonRoundTrip
import VeriMat.JsonPrefix
import VeriMat.JsonLines
import VeriMat.PyValue
import VeriMat.PyValueRoundTrip
import VeriMat.Events
import VeriMat.DurablePayload
import VeriMat.EnvelopeRoundTrip
import VeriMat.Ledger
import VeriMat.HashChain
import VeriMat.LedgerChain
import VeriMat.LedgerTamper
import VeriMat.LedgerLines
import VeriMat.LedgerAppend
import VeriMat.LedgerTornWrite
import VeriMat.LedgerConcurrent
import VeriMat.KeyedTable
import VeriMat.Transaction
import VeriMat.JobStore
import VeriMat.JobStoreCalls
import VeriMat.JobStoreRuns
import VeriMat.JobStoreStateMachine
import VeriMat.JobStoreBudget
import VeriMat.JobStoreLease
import VeriMat.JobStoreCreate
import VeriMat.PyDict
import VeriMat.PyDisplay
import VeriMat.DecisionGraph
import VeriMat.DecisionGraphSteps
import VeriMat.DecisionGraphReplay
import VeriMat.DecisionGraphInvariants
import VeriMat.DecisionGraphSurvival
import VeriMat.CircuitBreaker
import VeriMat.CircuitBreakerSafety
import VeriMat.AtomicProgram
import VeriMat.OperationStore
import VeriMat.Transports
import VeriMat.ModelTransports
import VeriMat.OperationSystem
import VeriMat.OperationProtocol
import VeriMat.OperationRuns
import VeriMat.PaidCalls
import VeriMat.JsonWritable
import VeriMat.CompletedOperations
import VeriMat.PaidResponses
import VeriMat.PolicyCredit
import VeriMat.PolicyOutbox
import VeriMat.PolicyAudit
import VeriMat.PolicyDelivery
import VeriMat.PolicyFlush
import VeriMat.LedgerGrowth
import VeriMat.PolicyRefresh
import VeriMat.PolicyStore
import VeriMat.RelyGuarantee
import VeriMat.Artifacts
import VeriMat.Retention
import VeriMat.RetentionEffect
import VeriMat.RetentionCrash
import VeriMat.RetentionRace
import VeriMat.RateLimiter
import VeriMat.ParetoSearch
import VeriMat.Verification
import VeriMat.Methods
import VeriMat.Ablation
import VeriMat.Oracle
import VeriMat.QuoteGate
import VeriMat.TimeSplit
import VeriMat.JsonAscii
import VeriMat.RetrievalCache
import VeriMat.RetrievalSnapshot
import VeriMat.TokenBudget
import VeriMat.DecisionGraphBoundary
import VeriMat.ParetoRun
import VeriMat.ParetoArchive
import VeriMat.ParetoStatistics
import VeriMat.LedgerTotality
import VeriMat.Interleaving
import VeriMat.Worker
import VeriMat.WorkerReports
import VeriMat.SurveyRecords
import VeriMat.SurveySnapshot
import VeriMat.SurveyRoundTrip
import VeriMat.KeyedRecords
import VeriMat.CorpusBuild
import VeriMat.CorpusRuns
import VeriMat.CorpusClosure
import VeriMat.CorpusQueries
import VeriMat.RelationExtraction
import VeriMat.RelationQuotes
import VeriMat.GapNarration
import VeriMat.ClosedVocabularies
import VeriMat.WorkerPool
import VeriMat.Recoverability
import VeriMat.CircuitBreakerLog
import VeriMat.ControlPlane
import VeriMat.BudgetReplay
import VeriMat.OperatorCompletions
import VeriMat.ResumeLoop
import VeriMat.OracleOutage
import VeriMat.PyDate
import VeriMat.SciverseRetriever
import VeriMat.PolicyOrder
import VeriMat.JsonIndent
import VeriMat.Challenge
import VeriMat.Blinding
import VeriMat.BlindRoundTrip
import VeriMat.FileTree
import VeriMat.PosixPath
import VeriMat.Backup
import VeriMat.BackupExact
import VeriMat.ParetoFront
import VeriMat.Grouping
import VeriMat.GapCandidates
import VeriMat.CoverageMatrix
import VeriMat.Fallible
import VeriMat.GapHoles
import VeriMat.GapDetection
import VeriMat.GapTable
import VeriMat.RelationRepeats
import VeriMat.NumericGate
import VeriMat.ParetoProgress
import VeriMat.RefinementSearch
import VeriMat.NarrowedBoundary
import VeriMat.OperationReplay
import VeriMat.PassageIndependence
import VeriMat.HolmAdjustment
import VeriMat.Calibration
import VeriMat.JsonSpaced
import VeriMat.JsonQuotes
import VeriMat.JsonlOps
import VeriMat.JsonlCommands
import VeriMat.TurnLoop
import VeriMat.SciverseClient
import VeriMat.SciverseReading
import VeriMat.SciversePaging
import VeriMat.LatexEscape
import VeriMat.SignFlip
import VeriMat.GrowingState
import VeriMat.EvidenceSuccess
import VeriMat.Migrations
import VeriMat.MigrationRuns
import VeriMat.PolicyRecall
import VeriMat.OrderedRunner
import VeriMat.OrderedRuns
import VeriMat.PrimitiveRatios
import VeriMat.Formulas
import VeriMat.CanonicalFormulas
import VeriMat.GreedyMatching
import VeriMat.CrossValidation
import VeriMat.MatchedObservations
import VeriMat.CitationKeys
import VeriMat.Bibliography
import VeriMat.ReportAudit
