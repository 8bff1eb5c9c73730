import PersonalDevin.Lib.Dict
import PersonalDevin.Lib.Layers
import PersonalDevin.Lib.Search
import PersonalDevin.Lib.Memo
import PersonalDevin.Lib.Paired
import PersonalDevin.Value
import PersonalDevin.Field
import PersonalDevin.Planning.Model
import PersonalDevin.Planning.Graph
import PersonalDevin.Planning.Build
import PersonalDevin.Planning.Cycle
import PersonalDevin.Planning.Traversal
import PersonalDevin.Planning.Levels
import PersonalDevin.Planning.Planner
import PersonalDevin.Planning.Acceptance
import PersonalDevin.Planning.Stability
import PersonalDevin.Execution.Model
import PersonalDevin.Execution.Runner
import PersonalDevin.Execution.Progress
import PersonalDevin.Execution.Continue
import PersonalDevin.Execution.Halt
import PersonalDevin.Lib.Loop
import PersonalDevin.Lib.Actions
import PersonalDevin.Lib.SharedList
import PersonalDevin.Lib.Numbering
import PersonalDevin.Agent.Steps
import PersonalDevin.Agent.Strategy
import PersonalDevin.Agent.Controller
import PersonalDevin.Agent.Turns
import PersonalDevin.Agent.Runs
import PersonalDevin.Agent.Position
import PersonalDevin.Agent.Credit
import PersonalDevin.Agent.Soundness
import PersonalDevin.Memory.Record
import PersonalDevin.Memory.Store
import PersonalDevin.Memory.Service
import PersonalDevin.Memory.Writers
import PersonalDevin.Memory.Contract
import PersonalDevin.Memory.Identity
import PersonalDevin.Lib.Decimal
import PersonalDevin.Lib.Effects
import PersonalDevin.Lib.Faults
import PersonalDevin.Lib.Fraction
import PersonalDevin.Text
import PersonalDevin.Number
import PersonalDevin.Memory.History
import PersonalDevin.Memory.Sequential
import PersonalDevin.Orchestration.Recovery
import PersonalDevin.Orchestration.State
import PersonalDevin.Orchestration.Controller
import PersonalDevin.Orchestration.Lifecycle
import PersonalDevin.Orchestration.Stages
import PersonalDevin.Orchestration.Coherence
import PersonalDevin.Orchestration.Audit
import PersonalDevin.AgentLoop.Loop
import PersonalDevin.AgentLoop.Copies
import PersonalDevin.AgentLoop.History
import PersonalDevin.Improvement.Pipeline
import PersonalDevin.Improvement.Engine
import PersonalDevin.Improvement.Store
import PersonalDevin.Improvement.Cooldown
import PersonalDevin.Improvement.Adapter
import PersonalDevin.Improvement.Versions
import PersonalDevin.Improvement.Interference
import PersonalDevin.SelfImprovement.Evaluator
import PersonalDevin.Context.Model
import PersonalDevin.Context.Service
import PersonalDevin.Context.Compatibility
import PersonalDevin.Context.Planning
import PersonalDevin.Execution.Policy
import PersonalDevin.Execution.Hooks
import PersonalDevin.Agent.Executor
import PersonalDevin.SortedKeys
import PersonalDevin.Deployment.Frozen
import PersonalDevin.Deployment.Context
import PersonalDevin.Deployment.Injector
import PersonalDevin.Memory.RoundTrip
import PersonalDevin.Lib.Binary64
import PersonalDevin.Lib.Ranking
import PersonalDevin.Planning.ConflictResolver
import PersonalDevin.Improvement.Gates
import PersonalDevin.Lib.Files
import PersonalDevin.Memory.AtomicWrite
import PersonalDevin.Memory.Tokens
import PersonalDevin.Memory.Newest
import PersonalDevin.AgentLoop.Retry
import PersonalDevin.Improvement.Revalidation
import PersonalDevin.Execution.Report
import PersonalDevin.Orchestration.Report
import PersonalDevin.Improvement.Rates
import PersonalDevin.AgentLoop.Logs
import PersonalDevin.Lib.KeepBest
import PersonalDevin.SelfImprovement.Patterns
import PersonalDevin.SelfImprovement.Policy
import PersonalDevin.Execution.Rounds
import PersonalDevin.Execution.Skips
import PersonalDevin.SelfImprovement.Analyzer
import PersonalDevin.Agent.Retries
import PersonalDevin.Agent.Sessions
import PersonalDevin.Agent.Bookings
import PersonalDevin.Agent.Saves
import PersonalDevin.Agent.Rebuild
import PersonalDevin.Agent.Structure
import PersonalDevin.Agent.Levels
import PersonalDevin.Orchestration.Attempts
import PersonalDevin.Planning.Feedback
import PersonalDevin.Execution.Names
import PersonalDevin.Lib.Greedy
import PersonalDevin.Lib.Countdown
import PersonalDevin.Planning.TaskGraph
import PersonalDevin.Planning.TaskOrder
import PersonalDevin.Lib.Json
import PersonalDevin.JsonText
import PersonalDevin.Context.CacheKey
import PersonalDevin.Context.Loads
import PersonalDevin.Deployment.CoreContext
import PersonalDevin.Deployment.Orchestrator
import PersonalDevin.Deployment.Plans
import PersonalDevin.Execution.Sandbox
import PersonalDevin.Integrations.Confinement
import PersonalDevin.Planning.Decomposer
import PersonalDevin.Analysis.Analyzer
import PersonalDevin.Memory.Feedback
import PersonalDevin.Adaptation.ClosedLoop
import PersonalDevin.AgentLoop.Production
import PersonalDevin.SelfImprovement.Reports
import PersonalDevin.Orchestration.Production
