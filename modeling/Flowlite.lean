import Flowlite.Logic.Attempts
import Flowlite.Theorems.AtomicSubmission
import Flowlite.Theorems.CascadeDelete
import Flowlite.Theorems.ChildStopClosure
import Flowlite.Theorems.CommandsAreHeld
import Flowlite.Theorems.ConcurrencyCaps
import Flowlite.Theorems.FinishedIsFinal
import Flowlite.Theorems.NotifiedOnce
import Flowlite.Theorems.OldestFirst
import Flowlite.Theorems.OutputComplete
import Flowlite.Theorems.ParallelRuns
import Flowlite.Theorems.Reruns
import Flowlite.Theorems.RetentionDeletes
import Flowlite.Theorems.RetentionWindow
import Flowlite.Theorems.ServeLockProtocol
import Flowlite.Theorems.SpawnedOnce
import Flowlite.Theorems.StreamCapture
import Flowlite.Theorems.TaskGraphs
import Flowlite.Crud.Seeding
import Flowlite.Logic.SpawnEnvironment
import Flowlite.Theorems.SpawnEnvironment
import Flowlite.Theorems.CronBounds
import Flowlite.Theorems.RetryDiscipline
import Flowlite.Theorems.RetryLogs
import Flowlite.Theorems.ChunkedDecoding
import Flowlite.Theorems.SessionRefresh
import Flowlite.Theorems.LoginRedirects
import Flowlite.Order.NextFit
import Flowlite.Theorems.SlackLimits
import Flowlite.Theorems.SlackMarkup
import Flowlite.Logic.AttemptFiles
import Flowlite.Logic.Handover
import Flowlite.Logic.WasSpawned
import Flowlite.Theorems.ResultHandover
import Flowlite.Theorems.LevelsAgree
import Flowlite.Theorems.OccurrenceOnce
import Flowlite.Theorems.Outcomes
import Flowlite.Theorems.Progress
import Flowlite.Theorems.StopIsFinal
import Flowlite.Theorems.TaskOrder
import Flowlite.Theorems.VerdictCauses
import Flowlite.Theorems.BoundedChanges
import Flowlite.Theorems.VerdictsStick
