import PipeIo.EdgeSpec
import PipeIo.Contract
import PipeIo.Teardown
import PipeIo.Poison
import PipeIo.Protocol
import PipeIo.KeyedTimely
import PipeIo.KeyedBounds
import PipeIo.KeyedOrder
import PipeIo.KeyedReference
import PipeIo.KeyedLone
import PipeIo.SlidingStage
import PipeIo.Tumbling
import PipeIo.Session
import PipeIo.Batch
import PipeIo.LinesLimit
import PipeIo.LinesTrip
import PipeIo.SlidingJoins
import PipeIo.Conserved
import PipeIo.SessionStarts
import PipeIo.HaltSession
import PipeIo.SegmentDrop
import PipeIo.Backoff
import PipeIo.KeyedTickets
import PipeIo.ChainSession
import PipeIo.Retrying
import PipeIo.DeadLetterKept
import PipeIo.InstrumentBuild
import PipeIo.Deadlock
import PipeIo.ObserverPanic
import PipeIo.Batched
import PipeIo.Fates
import PipeIo.LifeNet
