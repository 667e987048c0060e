import PicoJvm.Accessors.AccessorCalls
import PicoJvm.Arithmetic.IntegerBytecodes
import PicoJvm.Arithmetic.Random
import PicoJvm.Arrays.ArrayCopy
import PicoJvm.Arrays.SubtypeQueries
import PicoJvm.Collections.HashtableRuns
import PicoJvm.Collections.VectorRuns
import PicoJvm.Compaction.ForwardingRoundTrip
import PicoJvm.Compaction.Lookup
import PicoJvm.Dispatch.InterfaceDispatch
import PicoJvm.Execution.Preemption
import PicoJvm.Execution.Propagation
import PicoJvm.Files.DirectoryListing
import PicoJvm.Files.EntryWalk
import PicoJvm.Files.JarParserCache
import PicoJvm.Files.MakeDirectories
import PicoJvm.Files.ResourceNames
import PicoJvm.Flash.FlashConfig
import PicoJvm.Flash.RangeChecks
import PicoJvm.Hardware.PwmChannel
import PicoJvm.Inflate.Crc32
import PicoJvm.Inflate.Lookup
import PicoJvm.Interning.Interned
import PicoJvm.Loading.ConflictResolution
import PicoJvm.Loading.Growth
import PicoJvm.Loading.MemberResolution
import PicoJvm.Loading.MirandaMethods
import PicoJvm.Loading.PoolReferences
import PicoJvm.Memory.BitRanges
import PicoJvm.Memory.FinalizationRuns
import PicoJvm.Memory.HeapRuns
import PicoJvm.Memory.LiveReferences
import PicoJvm.Monitors.QueueRuns
import PicoJvm.Names.JniNames
import PicoJvm.Names.NameChecks
import PicoJvm.Network.MqttReceive
import PicoJvm.Network.TcpSocket
import PicoJvm.Romizer.InterfaceCallSafety
import PicoJvm.Scheduling.BlockedThreadSafety
import PicoJvm.Scheduling.TakingTurns
import PicoJvm.Stackmaps.RedundantMaps
import PicoJvm.Stackmaps.ShiftedBcis
import PicoJvm.Streams.RoundTrip
import PicoJvm.Text.Numerals
import PicoJvm.Text.StringImmutability
import PicoJvm.Time.CalendarRuns
import PicoJvm.Time.ZoneIdentifiers
import PicoJvm.Verifier.Effect
import PicoJvm.Verifier.StackmapAttribute
