import Interleave.Actor.Error
import Interleave.Clock
import Interleave.Frame
import Interleave.Roster
import Interleave.StopRule
import Interleave.Random.Source
import Interleave.Log
import Interleave.Schedule
import Interleave.Race.Analysis
import Interleave.Race.Reversal
import Interleave.Policy
import Interleave.Machine.Basic
import Interleave.Machine.Step
import Interleave.Exploration
import Interleave.Code.Expr
import Interleave.Code.Instruction
import Interleave.Code.Body
import Interleave.Json.Quoted
import Interleave.Json.Number
import Interleave.Json.Record
import Interleave.Json.Form
import Interleave.Demo.Deposits
import Interleave.Demo.Greeting
import Interleave.Demo.CommandLine
import Interleave.Main
import Interleave.Proofs.Attempt
import Interleave.Proofs.Machine.Regular
import Interleave.Proofs.Race.Marks
import Interleave.Proofs.Race.Precedence
import Interleave.Proofs.Race.Clocks
import Interleave.Proofs.Race.HappensBefore
import Interleave.Proofs.Search.Driver
import Interleave.Proofs.Search.Frames
import Interleave.Proofs.Search.Stack
import Interleave.Proofs.Search.Choose
import Interleave.Proofs.Search.Enumeration
import Interleave.Proofs.Race.Backtracks
import Interleave.Proofs.Race.Partners
import Interleave.Proofs.Search.Distinct
import Interleave.Proofs.Machine.Plays
import Interleave.Proofs.Machine.Unwinding
import Interleave.Proofs.Machine.Waiting
import Interleave.Proofs.Machine.Wakeups
import Interleave.Proofs.Machine.Moves
import Interleave.Proofs.Machine.Coherence
import Interleave.Proofs.Machine.Consistency
import Interleave.Proofs.Machine.Handles
import Interleave.Proofs.Run.Steps
import Interleave.Proofs.Run.Orderly
import Interleave.Proofs.Machine.Footprint
import Interleave.Proofs.Machine.Queues
import Interleave.Proofs.Run.Turns
import Interleave.Proofs.Run.Services
import Interleave.Proofs.Run.Stacks
import Interleave.Proofs.Search.Bounded
import Interleave.Proofs.Search.Faithful
import Interleave.Proofs.Run.Tireless
import Interleave.Proofs.Scene.Runs
import Interleave.Proofs.Deposits.Executions
import Interleave.Proofs.Race.Reversals
import Interleave.Proofs.Race.Recording
import Interleave.Proofs.Race.Candidates
import Interleave.Proofs.Race.Coverage
import Interleave.Proofs.Run.Legality
import Interleave.Proofs.Run.Priorities
import Interleave.Proofs.Race.Suffixes
import Interleave.Proofs.Machine.Resting
import Interleave.Proofs.Run.Arrivals
import Interleave.Proofs.Run.Releases
import Interleave.Proofs.Machine.Lifetimes
import Interleave.Proofs.Machine.Ageing
import Interleave.Proofs.Run.Endings
import Interleave.Proofs.Run.Summaries
import Interleave.Proofs.Json.RoundTrip
import Interleave.Proofs.Machine.Fates
import Interleave.Proofs.Machine.Departures
import Interleave.Proofs.Machine.Verdicts
import Interleave.Proofs.Run.Outcomes
import Interleave.Proofs.Run.Failures
import Interleave.Proofs.Machine.Aftermath
import Interleave.Proofs.Run.Aftermath
import Interleave.Proofs.Run.Candidates
import Interleave.Proofs.Run.Again
