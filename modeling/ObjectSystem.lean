import ObjectSystem.Action
import ObjectSystem.Class
import ObjectSystem.Class.Builder
import ObjectSystem.Config
import ObjectSystem.Config.Document
import ObjectSystem.Debounce
import ObjectSystem.Decimal.Binary
import ObjectSystem.Decimal.Reading
import ObjectSystem.Decimal.Shortest
import ObjectSystem.Decimal.Text
import ObjectSystem.Description
import ObjectSystem.Error
import ObjectSystem.Event
import ObjectSystem.Handle
import ObjectSystem.Identity
import ObjectSystem.Instance
import ObjectSystem.Machine
import ObjectSystem.Machine.Command
import ObjectSystem.Machine.Frame
import ObjectSystem.MainContext
import ObjectSystem.MainContext.Source
import ObjectSystem.MainContext.Task
import ObjectSystem.Name
import ObjectSystem.NameTable
import ObjectSystem.Operation.Activation
import ObjectSystem.Operation.Call
import ObjectSystem.Operation.Construct
import ObjectSystem.Operation.Drive
import ObjectSystem.Operation.Emission
import ObjectSystem.Operation.Iterate
import ObjectSystem.Operation.Perform
import ObjectSystem.Operation.Poll
import ObjectSystem.Operation.Write
import ObjectSystem.Proofs.Abandonment
import ObjectSystem.Proofs.Accuracy
import ObjectSystem.Proofs.Additivity
import ObjectSystem.Proofs.Ages
import ObjectSystem.Proofs.Alike
import ObjectSystem.Proofs.Ancestry
import ObjectSystem.Proofs.Aside
import ObjectSystem.Proofs.Awaiting
import ObjectSystem.Proofs.Bridge
import ObjectSystem.Proofs.Bursts
import ObjectSystem.Proofs.Bypass
import ObjectSystem.Proofs.Children
import ObjectSystem.Proofs.Clock
import ObjectSystem.Proofs.Clockwork
import ObjectSystem.Proofs.Collecting
import ObjectSystem.Proofs.Comparing
import ObjectSystem.Proofs.Completion
import ObjectSystem.Proofs.Conclusions
import ObjectSystem.Proofs.Consistency
import ObjectSystem.Proofs.ConstructOnly
import ObjectSystem.Proofs.Countdown
import ObjectSystem.Proofs.Deadlines
import ObjectSystem.Proofs.Deal
import ObjectSystem.Proofs.Debouncing
import ObjectSystem.Proofs.Declared
import ObjectSystem.Proofs.Deferral
import ObjectSystem.Proofs.Desk
import ObjectSystem.Proofs.Drift
import ObjectSystem.Proofs.Effects
import ObjectSystem.Proofs.Emissions
import ObjectSystem.Proofs.Equality
import ObjectSystem.Proofs.Estate
import ObjectSystem.Proofs.Fate
import ObjectSystem.Proofs.Fittings
import ObjectSystem.Proofs.Gates
import ObjectSystem.Proofs.Handlers
import ObjectSystem.Proofs.Holding
import ObjectSystem.Proofs.Hosting
import ObjectSystem.Proofs.Lagging
import ObjectSystem.Proofs.Launches
import ObjectSystem.Proofs.Leading
import ObjectSystem.Proofs.Leftovers
import ObjectSystem.Proofs.LifeCycle
import ObjectSystem.Proofs.Listings
import ObjectSystem.Proofs.Loops
import ObjectSystem.Proofs.Making
import ObjectSystem.Proofs.Members
import ObjectSystem.Proofs.Milestones
import ObjectSystem.Proofs.Move
import ObjectSystem.Proofs.Notifications
import ObjectSystem.Proofs.Numbers
import ObjectSystem.Proofs.Orderly
import ObjectSystem.Proofs.Overriding
import ObjectSystem.Proofs.Overtaking
import ObjectSystem.Proofs.OwnActions
import ObjectSystem.Proofs.Owners
import ObjectSystem.Proofs.Pacing
import ObjectSystem.Proofs.Passes
import ObjectSystem.Proofs.Pending
import ObjectSystem.Proofs.Preparing
import ObjectSystem.Proofs.Progressions
import ObjectSystem.Proofs.Punctual
import ObjectSystem.Proofs.Queue
import ObjectSystem.Proofs.Quiet
import ObjectSystem.Proofs.Quitting
import ObjectSystem.Proofs.ReadyFailures
import ObjectSystem.Proofs.ReadyHooks
import ObjectSystem.Proofs.Readying
import ObjectSystem.Proofs.Redeclarations
import ObjectSystem.Proofs.Refitting
import ObjectSystem.Proofs.Refusals
import ObjectSystem.Proofs.Reports
import ObjectSystem.Proofs.Rosters
import ObjectSystem.Proofs.Rounds
import ObjectSystem.Proofs.Run
import ObjectSystem.Proofs.Seeding
import ObjectSystem.Proofs.Service
import ObjectSystem.Proofs.Shedding
import ObjectSystem.Proofs.Snapshot
import ObjectSystem.Proofs.Sound
import ObjectSystem.Proofs.Spellings
import ObjectSystem.Proofs.Stored
import ObjectSystem.Proofs.Strides
import ObjectSystem.Proofs.Taskless
import ObjectSystem.Proofs.Tasks
import ObjectSystem.Proofs.Teardown
import ObjectSystem.Proofs.Tidy
import ObjectSystem.Proofs.Timeouts
import ObjectSystem.Proofs.Timers
import ObjectSystem.Proofs.Timetable
import ObjectSystem.Proofs.TitleCasing
import ObjectSystem.Proofs.Tracking
import ObjectSystem.Proofs.Turn
import ObjectSystem.Proofs.Upkeep
import ObjectSystem.Proofs.View
import ObjectSystem.Proofs.Waiting
import ObjectSystem.Proofs.Written
import ObjectSystem.Property.Resolve
import ObjectSystem.Property.Spec
import ObjectSystem.Scenario.Client
import ObjectSystem.Scenario.Declare
import ObjectSystem.Scenario.Evaluate
import ObjectSystem.Scenario.Op
import ObjectSystem.Scenario.Perform
import ObjectSystem.Scenario.Perform.Actions
import ObjectSystem.Scenario.Perform.Contexts
import ObjectSystem.Scenario.Perform.Instances
import ObjectSystem.Scenario.Perform.Lookup
import ObjectSystem.Scenario.Report
import ObjectSystem.Scenario.Script
import ObjectSystem.Scenario.Session
import ObjectSystem.Signal
import ObjectSystem.Table
import ObjectSystem.Text.CaseMapping
import ObjectSystem.Text.Quoted
import ObjectSystem.Text.Ranges
import ObjectSystem.Text.TitleCase
import ObjectSystem.Text.WordCharacter
import ObjectSystem.Types.Registration
import ObjectSystem.Types.Registry
import ObjectSystem.Value
import ObjectSystem.World
import ObjectSystem.World.Actions
import ObjectSystem.World.Reclaim
