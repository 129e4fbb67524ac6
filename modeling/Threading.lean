import Threading.Attributes
import Threading.Calendar
import Threading.CommandLine.Clock
import Threading.CommandLine.Command
import Threading.CommandLine.Options
import Threading.CommandLine.Run
import Threading.CommandLine.Usage
import Threading.CpuSet
import Threading.Error
import Threading.Futex.Handshake
import Threading.Futex.Mutex
import Threading.Futex.RwLock
import Threading.Json.Access
import Threading.Json.Basic
import Threading.Json.Binary64
import Threading.Json.Number
import Threading.Json.Reader
import Threading.Json.Token
import Threading.Json.Writer
import Threading.LockOrder.CallStack
import Threading.LockOrder.Graph
import Threading.LockOrder.Hash
import Threading.LockOrder.Node
import Threading.LockOrder.Observer
import Threading.LockOrder.Report
import Threading.LockOrder.Search
import Threading.Locks
import Threading.Log.Line
import Threading.Main
import Threading.MappedArray
import Threading.Mutex
import Threading.Procfs.Lines
import Threading.Procfs.Stack
import Threading.Proofs.Attributes
import Threading.Proofs.Calendar
import Threading.Proofs.Calendar.Timestamp
import Threading.Proofs.Chain
import Threading.Proofs.Futex.Admission
import Threading.Proofs.Futex.Exclusion
import Threading.Proofs.Json.Fields
import Threading.Proofs.Json.Numerals
import Threading.Proofs.Json.Quoted
import Threading.Proofs.Json.Readings
import Threading.Proofs.Json.RoundTrip
import Threading.Proofs.Json.Tokens
import Threading.Proofs.LockOrder.Acquisition
import Threading.Proofs.LockOrder.Bookkeeping
import Threading.Proofs.LockOrder.CyclePath
import Threading.Proofs.LockOrder.CycleSearch
import Threading.Proofs.LockOrder.Forgetting
import Threading.Proofs.LockOrder.Freshness
import Threading.Proofs.LockOrder.History
import Threading.Proofs.LockOrder.Ledger
import Threading.Proofs.LockOrder.Links
import Threading.Proofs.LockOrder.Lookup
import Threading.Proofs.LockOrder.Nesting
import Threading.Proofs.LockOrder.NewEdges
import Threading.Proofs.LockOrder.ObservedMutexes
import Threading.Proofs.LockOrder.Origins
import Threading.Proofs.LockOrder.Parts
import Threading.Proofs.LockOrder.Precedence
import Threading.Proofs.LockOrder.Prediction
import Threading.Proofs.LockOrder.Ranks
import Threading.Proofs.LockOrder.Recording
import Threading.Proofs.LockOrder.Reports
import Threading.Proofs.LockOrder.Stacks
import Threading.Proofs.LockOrder.Steps
import Threading.Proofs.LockOrder.Tables
import Threading.Proofs.LockOrder.Tangles
import Threading.Proofs.LockOrder.Tracking
import Threading.Proofs.LockOrder.TwoLocks
import Threading.Proofs.LockOrder.Visits
import Threading.Proofs.Locks.Agreement
import Threading.Proofs.Locks.Kinds
import Threading.Proofs.Locks.Ownership
import Threading.Proofs.Log.Buffer
import Threading.Proofs.Log.Lines
import Threading.Proofs.MappedArray
import Threading.Proofs.Procfs.Lines
import Threading.Proofs.Procfs.Stack
import Threading.Proofs.Record.Acceptance
import Threading.Proofs.Record.CoreLine
import Threading.Proofs.Record.Emission
import Threading.Proofs.Record.Fields
import Threading.Proofs.Record.Log
import Threading.Proofs.Record.RoundTrip
import Threading.Proofs.Record.TraceId
import Threading.Proofs.Region
import Threading.Proofs.Region.BestFit
import Threading.Proofs.Registry
import Threading.Proofs.Registry.Edits
import Threading.Proofs.Registry.Roll
import Threading.Proofs.Scenario.Inversion
import Threading.Proofs.Scenario.Spawn
import Threading.Proofs.Scenario.Verdict
import Threading.Proofs.Settings.Level
import Threading.Proofs.Settings.ReadOnce
import Threading.Proofs.Text.Blank
import Threading.Proofs.Text.Hexadecimal
import Threading.Proofs.Threads.Calls
import Threading.Proofs.Threads.Cleanup
import Threading.Proofs.Threads.Deeds
import Threading.Proofs.Threads.Degraded
import Threading.Proofs.Threads.Effects
import Threading.Proofs.Threads.History
import Threading.Proofs.Threads.Launches
import Threading.Proofs.Threads.Layout
import Threading.Proofs.Threads.Life
import Threading.Proofs.Threads.Lives
import Threading.Proofs.Threads.Pardons
import Threading.Proofs.Threads.Placement
import Threading.Proofs.Threads.Refusals
import Threading.Proofs.Threads.StackSize
import Threading.Proofs.Word
import Threading.Record.Comparable
import Threading.Record.CoreLine
import Threading.Record.Emitter
import Threading.Record.Entry
import Threading.Record.Schema
import Threading.Region
import Threading.Registry
import Threading.Rehearsal.Act
import Threading.Rehearsal.Cast
import Threading.Rehearsal.Launch
import Threading.Rehearsal.MainStack
import Threading.Rehearsal.Script
import Threading.Scenario.Inversion
import Threading.Scenario.Spawn
import Threading.Scenario.Stage
import Threading.Scenario.Summary
import Threading.Settings
import Threading.Settings.Cache
import Threading.SystemCall
import Threading.Text.Blank
import Threading.Text.Hex
import Threading.Text.Names
import Threading.Text.Numeral
import Threading.Text.Split
import Threading.Thread.Cleanup
import Threading.Thread.JoinState
import Threading.Thread.LocalStorage
import Threading.ThreadGroup
import Threading.Word
