import SnappyJava.BlockWriterSafety
import SnappyJava.BlockRoundTrip
import SnappyJava.BlockReaderSafety
import SnappyJava.BlockTruncation
import SnappyJava.FrameGrammar
import SnappyJava.FrameTruncation
import SnappyJava.FrameReads
import SnappyJava.FrameTimingRuns
import SnappyJava.RawBlocks
import SnappyJava.BlockSchedules
import SnappyJava.BlockEnds
import SnappyJava.BlockHeaders
import SnappyJava.BlockWriterFailures
import SnappyJava.BitShuffle
import SnappyJava.TypedStreams
import SnappyJava.CachingBufferPool
import SnappyJava.CachedBufferAllocator
import SnappyJava.FramedWriterFailures
import SnappyJava.FramedWriterSources
import SnappyJava.FrameRoundTrip
import SnappyJava.FrameCorruption
import SnappyJava.FramedWriterClosing
import SnappyJava.FramedReaderSafety
import SnappyJava.FramedReaderLeases
import SnappyJava.FramedReaderChecks
import SnappyJava.FrameTransfers
import SnappyJava.ArrayRoundTrips
import SnappyJava.DirectBuffers
import SnappyJava.FrameSchedules
import SnappyJava.FrameEnds
import SnappyJava.FramedReaderReturns
import SnappyJava.PoolPeaks
