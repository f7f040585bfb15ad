import VPerfetto.Merge.Schema
import VPerfetto.Merge.Iterate
import VPerfetto.Merge.Combine
import VPerfetto.Merge.Visits
import VPerfetto.Merge.Frame
import VPerfetto.Merge.Namespaces
import VPerfetto.Lib.Wire
import VPerfetto.Lib.Message
import VPerfetto.Lib.Protozero
import VPerfetto.Merge.Codec
import VPerfetto.Merge.Uuids
import VPerfetto.Lib.Chunks
import VPerfetto.Host.Packet
import VPerfetto.Host.Config
import VPerfetto.Host.Context
import VPerfetto.Lib.Runs
import VPerfetto.Host.Buffer
import VPerfetto.Host.Machine
import VPerfetto.Host.Invariants
import VPerfetto.Host.Sessions
import VPerfetto.Host.Disabling
import VPerfetto.Host.Interning
import VPerfetto.Host.Poll
import VPerfetto.Host.Saving
import VPerfetto.Sdk.Saver
import VPerfetto.Host.Locks
import VPerfetto.Lib.Ownership
import VPerfetto.Host.Stuck
import VPerfetto.Host.SequenceWait
import VPerfetto.Host.Returns
import VPerfetto.Host.Memory
import VPerfetto.Host.Storage
import VPerfetto.Host.HostFile
import VPerfetto.Lib.Refs
import VPerfetto.Host.Names
import VPerfetto.Host.References
import VPerfetto.Merge.Rewrite
import VPerfetto.Merge.Threads
import VPerfetto.Merge.ProcessTrees
import VPerfetto.Merge.CompactSched
import VPerfetto.Merge.Timeline
import VPerfetto.Sdk.Session
import VPerfetto.Sdk.HostTraces
import VPerfetto.Sdk.Client
import VPerfetto.Sdk.TimeDiff
import VPerfetto.Host.GuestTime
import VPerfetto.Sdk.GuestTime
import VPerfetto.Min.Session
import VPerfetto.Merge.StartTimes
import VPerfetto.Host.Settle
import VPerfetto.Merge.CpuSync
import VPerfetto.Merge.TscSync
import VPerfetto.Lib.Brackets
import VPerfetto.Host.Slices
import VPerfetto.Host.Depth
import VPerfetto.Host.Balance
import VPerfetto.Host.Matching
import VPerfetto.Host.Clock
import VPerfetto.Host.Split
import VPerfetto.Host.Room
import VPerfetto.Merge.Compose
import VPerfetto.Lib.Numeral
import VPerfetto.Merge.CommandLine
import VPerfetto.Lib.Tables
import VPerfetto.Lib.Spans
import VPerfetto.Host.Reader
import VPerfetto.Host.Recorder
import VPerfetto.Host.Recordings
import VPerfetto.Host.Viewer
import VPerfetto.Lib.Potential
import VPerfetto.Host.CombinedFile
import VPerfetto.Host.SaverRuns
import VPerfetto.Host.OwnFiles
import VPerfetto.Merge.HostTrace
