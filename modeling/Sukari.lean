import Sukari.Rotation
import Sukari.PlainHistory
import Sukari.CrashAtomicity
import Sukari.LoadedStates
import Sukari.StaleIndex
import Sukari.RefusedCalls
import Sukari.ZeroTail
import Sukari.BitFlip
import Sukari.IndexRuns
import Sukari.SegmentNames
import Sukari.FrameReaders
import Sukari.BodyLimits
import Sukari.RegistryFile
import Sukari.Canonical
import Sukari.DecoderBounds
import Sukari.SyncDurability
import Sukari.Interleaving
import Sukari.RacingRemoval
import Sukari.Outcomes
import Sukari.SyncedReads
import Sukari.SharedReads
import Sukari.Reopening
import Sukari.CountedErasure
import Sukari.CountedCalls
import Sukari.MetricGauges
import Sukari.MetricValues
