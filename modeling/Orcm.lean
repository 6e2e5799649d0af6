import Orcm.RegexExpansion
import Orcm.DssWidth
import Orcm.FifoOrder
import Orcm.SessionConservation
import Orcm.WakeUp
import Orcm.AllocRecord
import Orcm.JobRoundTrip
import Orcm.BinomialRoutes
import Orcm.DeBruijnRoutes
import Orcm.PointerArrayCalls
import Orcm.ArgumentLaws
import Orcm.ClusterDelivery
import Orcm.DoublingAlgorithms
import Orcm.Trackers
import Orcm.XcastRuns
import Orcm.ConfigNesting
import Orcm.RingBuffer
import Orcm.BitmapSets
import Orcm.BitmapLimit
import Orcm.OpalListRuns
import Orcm.Heartbeat
import Orcm.FrequencyRuns
import Orcm.SiteFileRoundTrip
import Orcm.OpalHashTableRuns
import Orcm.ReceiveMatching
import Orcm.JobCompletion
import Orcm.CompletionTracking
import Orcm.PowerBudget
import Orcm.SchedulerQueues
import Orcm.NodeOrder
import Orcm.AllocationMarks
import Orcm.CursorBounds
import Orcm.ArgumentEditing
import Orcm.ConfigStructuring
import Orcm.BitmapCounts
import Orcm.OpalHotel
import Orcm.StartingPoint
import Orcm.OutputQueue
import Orcm.SessionEnds
