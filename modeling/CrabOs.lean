import CrabOs.Foundations.RingBuffer
import CrabOs.Foundations.AsciiText
import CrabOs.Foundations.AtomicProgram
import CrabOs.Foundations.BoundedQueue
import CrabOs.Foundations.Runs
import CrabOs.Foundations.Spans
import CrabOs.Foundations.DescriptorRing
import CrabOs.Foundations.Painting
import CrabOs.Foundations.Separators
import CrabOs.Foundations.CommonPrefix
import CrabOs.Foundations.Deadlines
import CrabOs.Vga.Writer
import CrabOs.Vga.Terminal
import CrabOs.Vga.Refinement
import CrabOs.Vga.CursorPosition
import CrabOs.Vga.Frame
import CrabOs.Allocator.Layout
import CrabOs.Allocator.LinkedList
import CrabOs.Allocator.LinkedListHeap
import CrabOs.Allocator.FirstFit
import CrabOs.Allocator.Bump
import CrabOs.Allocator.FixedSizeBlock
import CrabOs.Allocator.FixedSizeBlockHeap
import CrabOs.Net.Web
import CrabOs.Net.UrlGrammar
import CrabOs.Net.Request
import CrabOs.Net.Scan
import CrabOs.Net.Pages
import CrabOs.Net.Markup
import CrabOs.Net.Hidden
import CrabOs.Net.HiddenEnd
import CrabOs.Net.E1000
import CrabOs.Net.TransmitRing
import CrabOs.Net.ReceiveRing
import CrabOs.Shell.Line
import CrabOs.Shell.History
import CrabOs.Shell.Walk
import CrabOs.Shell.Arguments
import CrabOs.Shell.ArgumentWords
import CrabOs.Shell.ArgumentSpans
import CrabOs.Shell.Quoting
import CrabOs.Shell.Commands
import CrabOs.Shell.Editor
import CrabOs.Shell.Editing
import CrabOs.Shell.Overlong
import CrabOs.Shell.Completion
import CrabOs.Shell.Discard
import CrabOs.Shell.Display
import CrabOs.Shell.Screen
import CrabOs.Shell.OnScreen
import CrabOs.Shell.LiveView
import CrabOs.Desktop.Desktop
import CrabOs.Desktop.Geometry
import CrabOs.Desktop.Motion
import CrabOs.Desktop.Render
import CrabOs.Desktop.Composition
import CrabOs.Desktop.FrameCache
import CrabOs.Desktop.Clicks
import CrabOs.Desktop.Console
import CrabOs.Desktop.Rules
import CrabOs.Desktop.Session
import CrabOs.Desktop.Isolation
import CrabOs.Memory.BootFrames
import CrabOs.Memory.Mmio
import CrabOs.Interrupts.Uptime
import CrabOs.Task.Executor
import CrabOs.Task.Kernel
import CrabOs.Task.Wakeups
import CrabOs.Task.ReadyQueue
import CrabOs.Task.Decoding
import CrabOs.Memory.Translate
import CrabOs.Net.Fetch
import CrabOs.Net.Download
import CrabOs.Net.SetUp
import CrabOs.Net.Pci
import CrabOs.Net.Init
import CrabOs.Allocator.InitHeap
import CrabOs.Allocator.Retention
import CrabOs.Desktop.Recall
import CrabOs.Shell.Echo
import CrabOs.Desktop.Redraw
import CrabOs.Desktop.Dragging
import CrabOs.Desktop.Framing
import CrabOs.Net.Document
