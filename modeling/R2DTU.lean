import R2DTU.Library.BoundedLoop
import R2DTU.Library.AndOr
import R2DTU.Library.Worklist
import R2DTU.Library.Kripke
import R2DTU.Planner.Formula
import R2DTU.Planner.State
import R2DTU.Planner.Action
import R2DTU.Planner.Operations
import R2DTU.Planner.Bisimulation
import R2DTU.Planner.PartitionRefinement
import R2DTU.Planner.BisimulationDecision
import R2DTU.Planner.ValuationKeys
import R2DTU.Planner.Graph
import R2DTU.Planner.Planner
import R2DTU.Planner.Propagation
import R2DTU.Planner.Expansion
import R2DTU.Planner.Search
import R2DTU.Planner.Extraction
import R2DTU.Planner.Verdict
import R2DTU.Planner.Execution
import R2DTU.Library.TransitionSystem
import R2DTU.Middleware.TopicIds
import R2DTU.Planner.Interface
import R2DTU.Library.RingQueue
import R2DTU.Middleware.PubSub
import R2DTU.Middleware.Relay
import R2DTU.Library.ByteMemory
import R2DTU.Middleware.Message
import R2DTU.Middleware.MessageRoundTrip
import R2DTU.Reasoning.DelDomain
import R2DTU.Reasoning.EpistemicReasoning
import R2DTU.Reasoning.Registration
import R2DTU.Reasoning.Observing
import R2DTU.Reasoning.Containers
import R2DTU.Library.FairSearch
import R2DTU.Planner.Completeness
import R2DTU.Library.KripkeUpdate
import R2DTU.Planner.OperationModels
import R2DTU.Planner.Congruence
import R2DTU.Planner.Coverage
import R2DTU.Planner.Indistinguishability
import R2DTU.Planner.Bounds
import R2DTU.Reasoning.Announcement
import R2DTU.Library.Reactive
import R2DTU.Reasoning.Sentences
import R2DTU.Reasoning.Session
import R2DTU.Reasoning.Reentry
import R2DTU.Planner.OnticChange
import R2DTU.Planner.PerspectiveShift
import R2DTU.Library.Sweep
import R2DTU.Planner.FormulaMeaning
import R2DTU.Reasoning.TickPass
import R2DTU.Reasoning.Views
import R2DTU.Reasoning.Hysteresis
import R2DTU.Reasoning.Calibration
import R2DTU.Library.FailingLoop
import R2DTU.Reasoning.Declarations
import R2DTU.Reasoning.Handlers
import R2DTU.Reasoning.QueryAnswers
import R2DTU.Reasoning.HandlerPrograms
import R2DTU.Library.Machine
import R2DTU.Middleware.RingBuffer
import R2DTU.Operator.LineWrapping
import R2DTU.Planner.Bookkeeping
import R2DTU.Middleware.SubscriberQueue
import R2DTU.Middleware.Network
import R2DTU.Acting.Trajectory
import R2DTU.Acting.Schedule
import R2DTU.Acting.TrajectoryMessage
import R2DTU.Library.Latch
import R2DTU.Planner.DomainLoader
import R2DTU.Library.LongestMatch
import R2DTU.Planner.Scanner
import R2DTU.Library.GreedySelection
import R2DTU.Perception.PersonTracker
import R2DTU.Perception.SkeletonMatching
import R2DTU.Perception.Publishing
import R2DTU.Library.ShortestStrategy
import R2DTU.Planner.Levels
import R2DTU.Planner.Optimality
import R2DTU.Operator.Terminal
import R2DTU.Executor.Robot
import R2DTU.Executor.Greet
import R2DTU.Executor.Calibration
import R2DTU.Executor.Fbt1
import R2DTU.Library.RecentRing
import R2DTU.Perception.FaceLearning
import R2DTU.Library.Mailbox
import R2DTU.Perception.PersonAsync
import R2DTU.Library.KeyedStore
import R2DTU.Operator.FalseBeliefView
import R2DTU.Operator.Gamepad
import R2DTU.Operator.Window
import R2DTU.Library.TaggedRecords
import R2DTU.Mockbot.Replay
