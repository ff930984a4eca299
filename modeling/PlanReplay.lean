import PlanReplay.Artifacts.CacheEntry
import PlanReplay.Artifacts.CacheKey
import PlanReplay.Artifacts.Sha256
import PlanReplay.Artifacts.Store
import PlanReplay.Bounds
import PlanReplay.CommandLine.Options
import PlanReplay.Config.Basic
import PlanReplay.Config.Reader
import PlanReplay.Crash
import PlanReplay.Decimal.Binary
import PlanReplay.Decimal.Compact
import PlanReplay.Decimal.Fixed
import PlanReplay.Decimal.Reader
import PlanReplay.Decimal.Shortest
import PlanReplay.Domain.Elevator
import PlanReplay.Domain.Logistics
import PlanReplay.Domain.Rejection
import PlanReplay.Domain.Robot
import PlanReplay.Domain.Table
import PlanReplay.Domain.Transition
import PlanReplay.Domain.Vocabulary
import PlanReplay.Host.FileError
import PlanReplay.Host.FileTree
import PlanReplay.Host.Launch
import PlanReplay.Host.Machine
import PlanReplay.Host.Path
import PlanReplay.Host.Publish
import PlanReplay.Host.Script
import PlanReplay.Json.Numeral
import PlanReplay.Json.Parser
import PlanReplay.Json.Printer
import PlanReplay.Json.Record
import PlanReplay.Json.Value
import PlanReplay.Main
import PlanReplay.Ordered.Map
import PlanReplay.Ordered.Set
import PlanReplay.Ordered.Sort
import PlanReplay.Plan.Basic
import PlanReplay.Plan.Line
import PlanReplay.Plan.Normal
import PlanReplay.Planner.Response
import PlanReplay.Planner.Service
import PlanReplay.Planner.Solver
import PlanReplay.Problem.Basic
import PlanReplay.Problem.Pddl
import PlanReplay.Problem.Reader
import PlanReplay.Proofs.Artifacts.CacheEntry
import PlanReplay.Proofs.Artifacts.CacheKey
import PlanReplay.Proofs.Artifacts.Store
import PlanReplay.Proofs.CommandLine.Flags
import PlanReplay.Proofs.Decimal.FloatText
import PlanReplay.Proofs.Decimal.HalfEven
import PlanReplay.Proofs.Decimal.ReadBack
import PlanReplay.Proofs.Decimal.Scientific
import PlanReplay.Proofs.Decimal.Shortest
import PlanReplay.Proofs.Decimal.Thousandths
import PlanReplay.Proofs.Domain.Commitment
import PlanReplay.Proofs.Domain.Commutation
import PlanReplay.Proofs.Domain.Conservation
import PlanReplay.Proofs.Domain.Containment
import PlanReplay.Proofs.Domain.Crash
import PlanReplay.Proofs.Domain.Deed
import PlanReplay.Proofs.Domain.Inverse
import PlanReplay.Proofs.Domain.Phase
import PlanReplay.Proofs.Domain.Progress
import PlanReplay.Proofs.Domain.Simulation
import PlanReplay.Proofs.Domain.Telling
import PlanReplay.Proofs.Domain.Unclocked
import PlanReplay.Proofs.Double
import PlanReplay.Proofs.Double.AddBack
import PlanReplay.Proofs.Double.Ends
import PlanReplay.Proofs.Double.Nearest
import PlanReplay.Proofs.Double.Order
import PlanReplay.Proofs.Double.Range
import PlanReplay.Proofs.Double.Rounding
import PlanReplay.Proofs.Double.Sum
import PlanReplay.Proofs.Double.Value
import PlanReplay.Proofs.Double.Whole
import PlanReplay.Proofs.Elevator.Ascent
import PlanReplay.Proofs.Elevator.FloorOrder
import PlanReplay.Proofs.Elevator.Load
import PlanReplay.Proofs.Elevator.Occupancy
import PlanReplay.Proofs.Elevator.Overflow
import PlanReplay.Proofs.Elevator.Passage
import PlanReplay.Proofs.Elevator.Position
import PlanReplay.Proofs.Elevator.Reading
import PlanReplay.Proofs.Elevator.Unloading
import PlanReplay.Proofs.Exact
import PlanReplay.Proofs.Host.Atomic
import PlanReplay.Proofs.Host.Interleaving
import PlanReplay.Proofs.Host.Path
import PlanReplay.Proofs.Host.Place
import PlanReplay.Proofs.Host.Publish
import PlanReplay.Proofs.Host.Publishing
import PlanReplay.Proofs.Host.Tree
import PlanReplay.Proofs.Json.ReadBack
import PlanReplay.Proofs.Logistics.City
import PlanReplay.Proofs.Logistics.Fuel
import PlanReplay.Proofs.Logistics.Run
import PlanReplay.Proofs.Plan.Dropped
import PlanReplay.Proofs.Plan.Order
import PlanReplay.Proofs.Plan.PrintedLine
import PlanReplay.Proofs.Plan.Render
import PlanReplay.Proofs.Plan.Shape
import PlanReplay.Proofs.Plan.StartRank
import PlanReplay.Proofs.Plan.Times
import PlanReplay.Proofs.Plan.Wait
import PlanReplay.Proofs.Planner.Solver
import PlanReplay.Proofs.Problem.Canonical
import PlanReplay.Proofs.Problem.Listed
import PlanReplay.Proofs.Problem.ReadBack
import PlanReplay.Proofs.Problem.Removal
import PlanReplay.Proofs.Problem.Symbol
import PlanReplay.Proofs.Problem.TypedList
import PlanReplay.Proofs.Replay.Accepted
import PlanReplay.Proofs.Replay.Crash
import PlanReplay.Proofs.Replay.DueTime
import PlanReplay.Proofs.Replay.EnoughTime
import PlanReplay.Proofs.Replay.Orderly
import PlanReplay.Proofs.Replay.Parameters
import PlanReplay.Proofs.Replay.Phase
import PlanReplay.Proofs.Replay.Rehearsal
import PlanReplay.Proofs.Replay.Schedule
import PlanReplay.Proofs.Replay.Trace
import PlanReplay.Proofs.Replay.Turn
import PlanReplay.Proofs.Replay.TurnCount
import PlanReplay.Proofs.Robot.Battery
import PlanReplay.Proofs.Robot.Connection
import PlanReplay.Proofs.Robot.Effects
import PlanReplay.Proofs.Robot.Energy
import PlanReplay.Proofs.Robot.Gripper
import PlanReplay.Proofs.Robot.Landing
import PlanReplay.Proofs.Robot.Resumption
import PlanReplay.Proofs.Robot.Room
import PlanReplay.Proofs.Robot.Run
import PlanReplay.Proofs.Session.Configuration
import PlanReplay.Proofs.Session.FrameTime
import PlanReplay.Proofs.Session.Interval
import PlanReplay.Proofs.Session.PlanSource
import PlanReplay.Proofs.Session.Sharing
import PlanReplay.Proofs.Text.Cut
import PlanReplay.Proofs.Text.Expression
import PlanReplay.Proofs.Text.Replace
import PlanReplay.Proofs.Text.Trim
import PlanReplay.Proofs.World.Agreement
import PlanReplay.Proofs.World.Batch
import PlanReplay.Proofs.World.Containment
import PlanReplay.Proofs.World.FullCheck
import PlanReplay.Proofs.World.Initial
import PlanReplay.Proofs.World.Invariant
import PlanReplay.Proofs.World.Locality
import PlanReplay.Proofs.World.Pieces
import PlanReplay.Proofs.World.Placement
import PlanReplay.Proofs.World.Relocation
import PlanReplay.Proofs.World.Shift
import PlanReplay.Proofs.World.Spared
import PlanReplay.Proofs.World.Structure
import PlanReplay.Replay.Event
import PlanReplay.Replay.Rate
import PlanReplay.Replay.Run
import PlanReplay.Replay.Timeline
import PlanReplay.Scalar
import PlanReplay.Selection
import PlanReplay.Session.EventLine
import PlanReplay.Session.Execute
import PlanReplay.Session.Home
import PlanReplay.Session.HostLoop
import PlanReplay.Session.PlanSource
import PlanReplay.Text.Blank
import PlanReplay.Text.Quoted
import PlanReplay.Text.Search
import PlanReplay.Text.Shape
import PlanReplay.Text.Utf8
import PlanReplay.World.Basic
import PlanReplay.World.Entity
import PlanReplay.World.Initial
import PlanReplay.World.Violation
import PlanReplay.World.Vocabulary
