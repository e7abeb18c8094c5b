import ValueCoverage.Agent.Basic
import ValueCoverage.Agent.Conversion
import ValueCoverage.Agent.Process
import ValueCoverage.Bytecode.Error
import ValueCoverage.Bytecode.Instruction
import ValueCoverage.Bytecode.Reader
import ValueCoverage.Bytecode.StackDepth
import ValueCoverage.Bytecode.Writer
import ValueCoverage.Bytes
import ValueCoverage.Capture.Instrumenter
import ValueCoverage.Capture.Prefix
import ValueCoverage.Capture.References
import ValueCoverage.Capture.Shift
import ValueCoverage.ClassFile.Basic
import ValueCoverage.ClassFile.ConstantPool
import ValueCoverage.ClassFile.Error
import ValueCoverage.ClassFile.Frame
import ValueCoverage.ClassFile.Reader
import ValueCoverage.ClassFile.Writer
import ValueCoverage.Collector.Basic
import ValueCoverage.Collector.Guard
import ValueCoverage.Collector.Interleaving
import ValueCoverage.Collector.Script
import ValueCoverage.Collector.Several
import ValueCoverage.Descriptor.Basic
import ValueCoverage.Descriptor.Reader
import ValueCoverage.Error
import ValueCoverage.LogFilter.Basic
import ValueCoverage.LogFilter.Directive
import ValueCoverage.LogFilter.Level
import ValueCoverage.LogFilter.Pattern
import ValueCoverage.Member
import ValueCoverage.Number.Binary
import ValueCoverage.Number.FloatText
import ValueCoverage.Number.Integer
import ValueCoverage.Number.Shortest
import ValueCoverage.Observation.Codec
import ValueCoverage.Observation.ItemList
import ValueCoverage.Observation.Registry
import ValueCoverage.Observation.Value
import ValueCoverage.Options.Basic
import ValueCoverage.Options.Error
import ValueCoverage.Ordered.DistinctList
import ValueCoverage.Ordered.OrderedMap
import ValueCoverage.Proofs.Agent.Conversion
import ValueCoverage.Proofs.Agent.FieldEvents
import ValueCoverage.Proofs.Agent.Hooks
import ValueCoverage.Proofs.Agent.Keys
import ValueCoverage.Proofs.Agent.NativeCall
import ValueCoverage.Proofs.Agent.Process
import ValueCoverage.Proofs.Agent.Watching
import ValueCoverage.Proofs.Bytecode.Decoding
import ValueCoverage.Proofs.Bytecode.Encoding
import ValueCoverage.Proofs.Bytecode.RoundTrip
import ValueCoverage.Proofs.Bytecode.Spelling
import ValueCoverage.Proofs.Bytecode.Tiling
import ValueCoverage.Proofs.Bytes
import ValueCoverage.Proofs.Capture.Activation
import ValueCoverage.Proofs.Capture.Declarations
import ValueCoverage.Proofs.Capture.Depth
import ValueCoverage.Proofs.Capture.Instrumented
import ValueCoverage.Proofs.Capture.Outcome
import ValueCoverage.Proofs.Capture.Prefix
import ValueCoverage.Proofs.Capture.PrefixRun
import ValueCoverage.Proofs.Capture.References
import ValueCoverage.Proofs.Capture.Rewriting
import ValueCoverage.Proofs.Capture.Room
import ValueCoverage.Proofs.Capture.Shift
import ValueCoverage.Proofs.Capture.Written
import ValueCoverage.Proofs.ClassFile.Attribute
import ValueCoverage.Proofs.ClassFile.Growth
import ValueCoverage.Proofs.ClassFile.Reader
import ValueCoverage.Proofs.ClassFile.RoundTrip
import ValueCoverage.Proofs.ClassFile.Takes
import ValueCoverage.Proofs.Collector
import ValueCoverage.Proofs.Collector.Borrowed
import ValueCoverage.Proofs.Collector.Held
import ValueCoverage.Proofs.Collector.History
import ValueCoverage.Proofs.Collector.InTurn
import ValueCoverage.Proofs.Collector.Initialization
import ValueCoverage.Proofs.Collector.Interleaving
import ValueCoverage.Proofs.Collector.Nested
import ValueCoverage.Proofs.Collector.Several
import ValueCoverage.Proofs.Collector.Thread
import ValueCoverage.Proofs.Collector.Throughout
import ValueCoverage.Proofs.Collector.Writing
import ValueCoverage.Proofs.ConstantPool.Added
import ValueCoverage.Proofs.ConstantPool.Calls
import ValueCoverage.Proofs.ConstantPool.Format
import ValueCoverage.Proofs.ConstantPool.Interning
import ValueCoverage.Proofs.ConstantPool.Texts
import ValueCoverage.Proofs.Descriptor.ByPlaces
import ValueCoverage.Proofs.Descriptor.Grammar
import ValueCoverage.Proofs.Number.Digits
import ValueCoverage.Proofs.Number.FloatText
import ValueCoverage.Proofs.Number.Rounding
import ValueCoverage.Proofs.Number.Shortest
import ValueCoverage.Proofs.Observation.Canonical
import ValueCoverage.Proofs.Observation.ItemList
import ValueCoverage.Proofs.Observation.Registry
import ValueCoverage.Proofs.Observation.Typed
import ValueCoverage.Proofs.Options.Pieces
import ValueCoverage.Proofs.Options.Settings
import ValueCoverage.Proofs.Options.Specification
import ValueCoverage.Proofs.Ordered
import ValueCoverage.Proofs.Run.Calls
import ValueCoverage.Proofs.Run.Replay
import ValueCoverage.Proofs.Run.Unreadable
import ValueCoverage.Proofs.Steps
import ValueCoverage.Proofs.Store.Count
import ValueCoverage.Proofs.Store.Format
import ValueCoverage.Proofs.Store.Update
import ValueCoverage.Proofs.Text.Cutting
import ValueCoverage.Proofs.Text.Lenient
import ValueCoverage.Proofs.Text.ModifiedUtf8
import ValueCoverage.Proofs.Text.Utf8
import ValueCoverage.Proofs.Vm.Loans
import ValueCoverage.Proofs.Vm.Machine
import ValueCoverage.Proofs.Vm.Tool
import ValueCoverage.Run.Basic
import ValueCoverage.Run.Files
import ValueCoverage.Run.Session
import ValueCoverage.Selection.Basic
import ValueCoverage.Selection.Rule
import ValueCoverage.Selection.TypeSpelling
import ValueCoverage.Store.Basic
import ValueCoverage.Store.Format
import ValueCoverage.Text.Alphanumeric
import ValueCoverage.Text.Blank
import ValueCoverage.Text.CodePoints
import ValueCoverage.Text.ModifiedUtf8
import ValueCoverage.Text.Quoted
import ValueCoverage.Text.Split
import ValueCoverage.Text.Unshown
import ValueCoverage.Text.Utf8
import ValueCoverage.Vm.Machine
import ValueCoverage.Vm.Native
import ValueCoverage.Vm.Object
import ValueCoverage.Vm.Tool
import ValueCoverage.Proofs.Store.Merge
import ValueCoverage.Proofs.Store.Lines
import ValueCoverage.Proofs.Store.Headers
import ValueCoverage.Proofs.Collector.Held
import ValueCoverage.Proofs.Selection.Spelling
import ValueCoverage.Proofs.Selection.Memory
