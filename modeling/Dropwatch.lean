import Dropwatch.BacktestProofs
import Dropwatch.MalformedProofs
import Dropwatch.RedeliveryProofs
import Dropwatch.FailedBatchProofs
import Dropwatch.LedgerProofs
import Dropwatch.PublishProofs
import Dropwatch.RebuildProofs
import Dropwatch.SlidingProofs
import Dropwatch.CadenceProofs
import Dropwatch.EnqueueProofs
import Dropwatch.LookbackProofs
import Dropwatch.UnmovedProofs
import Dropwatch.RefreshProofs
import Dropwatch.NewestProofs
import Dropwatch.BatchingProofs
import Dropwatch.MeasureProofs
import Dropwatch.SpellingProofs
import Dropwatch.SwallowProofs
import Dropwatch.BackoffProofs
import Dropwatch.DiscoveryProofs
import Dropwatch.IdempotenceProofs
import Dropwatch.RaceProofs
import Dropwatch.StaggerProofs
import Dropwatch.ResolveProofs
import Dropwatch.EditingProofs
import Dropwatch.PatchProofs
import Dropwatch.PagingProofs
import Dropwatch.InterferenceProofs
import Dropwatch.ReplyProofs
import Dropwatch.ProviderProofs
import Dropwatch.DrainProofs
import Dropwatch.WireProofs
import Dropwatch.ListenerProofs
import Dropwatch.ReductionProofs
import Dropwatch.ReportProofs
