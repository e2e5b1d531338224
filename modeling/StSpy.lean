import StSpy.Lib.Blocks
import StSpy.Lib.BlockMaps
import StSpy.Lib.Queries
import StSpy.Lib.Replay
import StSpy.Lib.Channel
import StSpy.Lib.Runs
import StSpy.Lib.Loops
import StSpy.Lib.Parents
import StSpy.Lib.Delimited
import StSpy.Lib.Interning
import StSpy.Lib.Forest
import StSpy.Lib.Chains
import StSpy.Lib.Lru
import StSpy.Lib.Tables
import StSpy.Lib.Windows
import StSpy.Lib.Logged
import StSpy.Lib.Errors
import StSpy.Lib.Readers
import StSpy.Memory
import StSpy.Heap
import StSpy.Heap.ByteObjects
import StSpy.Heap.Nesting
import StSpy.CogMethod
import StSpy.Symbolizer
import StSpy.Symbolizer.Ranges
import StSpy.Symbolizer.EntrySymbols
import StSpy.Symbolizer.Zone
import StSpy.Symbolizer.Scan
import StSpy.Symbolizer.Calls
import StSpy.Symbolizer.Overlap
import StSpy.Symbolizer.Order
import StSpy.Symbolizer.Growth
import StSpy.Symbolizer.Loops
import StSpy.Symbolizer.Moved
import StSpy.Symbolizer.Agreement
import StSpy.Symbolizer.Blocked
import StSpy.Symbolizer.Frames
import StSpy.Symbolizer.Steady
import StSpy.Arithmetic
import StSpy.Arithmetic.InRange
import StSpy.Arithmetic.Overflow
import StSpy.StackTrace
import StSpy.Text
import StSpy.Text.Numbers
import StSpy.Stitch
import StSpy.Stitch.Callers
import StSpy.Stitch.Removal
import StSpy.Stitch.Names
import StSpy.Stitch.Roots
import StSpy.Stitch.Labels
import StSpy.Chrometrace
import StSpy.Chrometrace.Replay
import StSpy.Chrometrace.Threads
import StSpy.Record
import StSpy.Record.Duration
import StSpy.Record.Stop
import StSpy.Config
import StSpy.ConsoleViewer
import StSpy.ConsoleViewer.Samples
import StSpy.ConsoleViewer.Counts
import StSpy.ConsoleViewer.Display
import StSpy.ConsoleViewer.Screens
import StSpy.ConsoleViewer.Rows
import StSpy.Flamegraph
import StSpy.Flamegraph.Decode
import StSpy.Speedscope
import StSpy.Speedscope.Decode
import StSpy.Record.Formats
import StSpy.BinaryParser
import StSpy.BinaryParser.Relocation
import StSpy.FramehopUnwind
import StSpy.FramehopUnwind.Reload
import StSpy.FramehopUnwind.Bias
import StSpy.NativeStack
import StSpy.NativeStack.Cache
import StSpy.NativeStack.Backends
import StSpy.FramehopUnwind.StackCopy
import StSpy.FramehopUnwind.Unwind
import StSpy.Dump
import StSpy.Dump.Tree
import StSpy.SmalltalkProcessInfo
import StSpy.SmalltalkProcessInfo.Version
import StSpy.PauseTiming
import StSpy.PauseTiming.Exact
import StSpy.SmalltalkSpy
import StSpy.SmalltalkSpy.Samples
import StSpy.SmalltalkSpy.Activations
import StSpy.SmalltalkSpy.Invariants
import StSpy.Sampler
import StSpy.Sampler.Handshake
import StSpy.Sampler.Rounds
import StSpy.Sampler.Stop
import StSpy.Sampler.Leave
import StSpy.Sampler.Ancestry
import StSpy.Sampler.Streams
import StSpy.Sampler.Groups
import StSpy.Timer
import StSpy.Sampler.Single
import StSpy.Sampler.SingleRuns
import StSpy.Sampler.Spies
import StSpy.Sampler.Annotations
import StSpy.Sampler.Progress
import StSpy.Commands
import StSpy.Commands.Steady
import StSpy.Commands.Subprocesses
import StSpy.Main
