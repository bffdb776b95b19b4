import TgiRouter.Queue.Entry
import TgiRouter.Queue.Tree
import TgiRouter.Queue.BatchType
import TgiRouter.Queue.Weight
import TgiRouter.Queue.State
import TgiRouter.Queue.Scan
import TgiRouter.Queue.NextBatch
import TgiRouter.Queue.Cutoff
import TgiRouter.Queue.Run
import TgiRouter.Queue.WaitingHead
import TgiRouter.Queue.Cursor
import TgiRouter.Queue.Live
import TgiRouter.Queue.Rejection
import TgiRouter.Queue.LiveRun
import TgiRouter.Queue.HeavyBatch
import TgiRouter.Infer.Stream
import TgiRouter.Infer.Generations
import TgiRouter.Infer.Task
import TgiRouter.Infer.Invariant
import TgiRouter.Infer.Size
import TgiRouter.Infer.Generate
