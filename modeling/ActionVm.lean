import ActionVm.Action
import ActionVm.Block.Branch
import ActionVm.Block.Decoding
import ActionVm.Block.Document
import ActionVm.Block.Encoding
import ActionVm.Block.Listing
import ActionVm.Buffer
import ActionVm.Code
import ActionVm.CommandLine.Help
import ActionVm.CommandLine.Options
import ActionVm.CommandLine.Outcome
import ActionVm.CommandLine.Request
import ActionVm.Context
import ActionVm.Decimal.Binary
import ActionVm.Decimal.Integer
import ActionVm.Decimal.Notation
import ActionVm.Decimal.Reading
import ActionVm.Decimal.Shortest
import ActionVm.Error
import ActionVm.Files.Access
import ActionVm.Files.Grants
import ActionVm.Files.Path
import ActionVm.Files.Tree
import ActionVm.Host.Arguments
import ActionVm.Host.Call
import ActionVm.Host.Configuration
import ActionVm.Host.Domain
import ActionVm.Host.File
import ActionVm.Host.Install
import ActionVm.Host.SystemObject
import ActionVm.Json
import ActionVm.Machine
import ActionVm.Machine.Actions
import ActionVm.Machine.Closures
import ActionVm.Main
import ActionVm.Members
import ActionVm.Memory
import ActionVm.Object
import ActionVm.Reader
import ActionVm.Stage
import ActionVm.Store
import ActionVm.Store.Liveness
import ActionVm.Store.Text
import ActionVm.Table
import ActionVm.Tag
import ActionVm.Tag.Run
import ActionVm.Text.Blank
import ActionVm.Text.Hexadecimal
import ActionVm.Text.Quoted
import ActionVm.Text.Unicode
import ActionVm.Text.Utf8
import ActionVm.Toml.Document
import ActionVm.Toml.Expected
import ActionVm.Toml.Fault
import ActionVm.Toml.Item
import ActionVm.Toml.Scalar
import ActionVm.Toml.Scan
import ActionVm.Toml.Text
import ActionVm.Value
import ActionVm.Variables
import ActionVm.Word
import ActionVm.Worker
import ActionVm.Proofs.Reading
import ActionVm.Proofs.Block.Layout
import ActionVm.Proofs.Text.Splitting
import ActionVm.Proofs.Text.Utf8
import ActionVm.Proofs.Block.Operands
import ActionVm.Proofs.Block.RoundTrip
import ActionVm.Proofs.Block.Landing
import ActionVm.Proofs.Machine.Actions
import ActionVm.Proofs.Machine.Loops
import ActionVm.Proofs.Machine.Branching
import ActionVm.Proofs.Machine.Streams
import ActionVm.Proofs.Files.Walk
import ActionVm.Proofs.Files.Containment
import ActionVm.Proofs.Machine.Changes
import ActionVm.Proofs.Machine.Steady
import ActionVm.Proofs.Machine.Turns
import ActionVm.Proofs.Machine.Balance
import ActionVm.Proofs.Machine.Scopes
import ActionVm.Proofs.Machine.Depth
import ActionVm.Proofs.Block.Frugality
import ActionVm.Proofs.Block.Chain
import ActionVm.Proofs.Block.Truncation
import ActionVm.Proofs.Block.Displacement
import ActionVm.Proofs.Block.Terminator
import ActionVm.Proofs.Buffer.Bytes
import ActionVm.Proofs.Buffer.Requests
import ActionVm.Proofs.Workers.Slots
import ActionVm.Proofs.Machine.Bottom
import ActionVm.Proofs.Machine.InitActions
import ActionVm.Proofs.Machine.Operands
import ActionVm.Proofs.Machine.Underneath
import ActionVm.Proofs.Machine.Evolution
import ActionVm.Proofs.Workers.Memory
import ActionVm.Proofs.Store.Entries
import ActionVm.Proofs.Store.Assignment
import ActionVm.Proofs.Store.Enumeration
import ActionVm.Proofs.Machine.Variables
import ActionVm.Proofs.Machine.Binding
import ActionVm.Proofs.Files.Spellings
import ActionVm.Proofs.Files.Discretion
import ActionVm.Proofs.Store.Lasting
import ActionVm.Proofs.Store.Naming
import ActionVm.Proofs.Store.Correspondence
import ActionVm.Proofs.Store.Lookups
import ActionVm.Proofs.Store.Survival
import ActionVm.Proofs.Store.Reachability
import ActionVm.Proofs.Machine.Simulation
import ActionVm.Proofs.Machine.SimulatedMembers
import ActionVm.Proofs.Machine.SimulatedHost
import ActionVm.Proofs.Machine.SimulatedOperands
import ActionVm.Proofs.Machine.SimulatedActions
import ActionVm.Proofs.Machine.SimulatedRuns
import ActionVm.Proofs.Workers.Confinement
import ActionVm.Proofs.Workers.Independence
import ActionVm.Proofs.Decimal.Whole
import ActionVm.Proofs.Text.Numerals
import ActionVm.Proofs.Store.Elements
import ActionVm.Proofs.Store.Lineage
import ActionVm.Proofs.Machine.Inheritance
import ActionVm.Proofs.Store.Joining
import ActionVm.Proofs.Tag.Buttons
import ActionVm.Proofs.Store.Deeds
import ActionVm.Proofs.Store.Domains
import ActionVm.Proofs.Text.Grammars
import ActionVm.Proofs.Machine.Labels
import ActionVm.Proofs.Decimal.Units
import ActionVm.Proofs.Decimal.Conversion
import ActionVm.Proofs.Machine.Bitwise
import ActionVm.Proofs.Reading.Spans
import ActionVm.Proofs.Text.Plain
import ActionVm.Proofs.Block.Outline
import ActionVm.Proofs.Block.Readback
