import StakingMiner.BatchResults
import StakingMiner.BestScore
import StakingMiner.ClientRuns
import StakingMiner.CompetitiveSkips
import StakingMiner.CompletedBlocks
import StakingMiner.DispatchedCalls
import StakingMiner.EraPruningRuns
import StakingMiner.FailoverOrder
import StakingMiner.JanitorTransactions
import StakingMiner.ListenerRuns
import StakingMiner.MetadataUpdates
import StakingMiner.MiningBound
import StakingMiner.MiningFailures
import StakingMiner.MonitorExit
import StakingMiner.NamedFiles
import StakingMiner.NonceRuns
import StakingMiner.OverridePrecedence
import StakingMiner.PageArrangement
import StakingMiner.PageBitfields
import StakingMiner.PageContents
import StakingMiner.PageCounts
import StakingMiner.PartialFailure
import StakingMiner.PhaseReads
import StakingMiner.PredictionAgreement
import StakingMiner.PredictionBlocks
import StakingMiner.PruningActivity
import StakingMiner.RecreationLimit
import StakingMiner.RefetchedPages
import StakingMiner.ReplacedSubmissions
import StakingMiner.ReplayedSimulations
import StakingMiner.ReportedDecimals
import StakingMiner.ResumeBounds
import StakingMiner.RoundScans
import StakingMiner.RoundSolutions
import StakingMiner.ServerAnswers
import StakingMiner.SnapshotRuns
import StakingMiner.SolverIsolation
import StakingMiner.StaleRounds
import StakingMiner.StaleWork
import StakingMiner.SubmissionRuns
import StakingMiner.SubmitGuards
import StakingMiner.VoterSelection
