import Lineage.Main
import Lineage.Proofs.LookupBudget
import Lineage.Proofs.Reindex
import Lineage.Proofs.StoredItems
import Lineage.Watch.Change
import Lineage.Watch.Debouncer
import Lineage.Proofs.CyclePass
import Lineage.Proofs.Announcements
import Lineage.Proofs.NoLostReindex
import Lineage.Proofs.AnswerFormats
import Lineage.Proofs.Dictionaries
import Lineage.Proofs.Provenance
import Lineage.Proofs.FolderImport
import Lineage.Proofs.Instants
import Lineage.Proofs.ItemText
import Lineage.Proofs.SourcePaths
import Lineage.Proofs.Watching
import Lineage.Proofs.Reachability
import Lineage.Proofs.ReindexRuns
import Lineage.Proofs.TimeSlices
import Lineage.Proofs.Backfill
import Lineage.Proofs.StoreInvariant
import Lineage.Proofs.Authorization
import Lineage.Proofs.FailedWrites
import Lineage.Proofs.Origins
import Lineage.Proofs.Retries
import Lineage.Proofs.MigrationFiles
import Lineage.Proofs.MigrationRuns
import Lineage.Proofs.LargerLimits
import Lineage.Proofs.ListingPages
import Lineage.Proofs.PathCounts
import Lineage.Proofs.QuietPeriods
import Lineage.Proofs.Locality
import Lineage.Proofs.DeclaredEdges
import Lineage.Proofs.NodeLinks
import Lineage.Proofs.Validation
import Lineage.Proofs.StaleIndex
import Lineage.Proofs.RequestNumbers
import Lineage.Proofs.LinkSearch
import Lineage.Proofs.Spellings
import Lineage.Proofs.Discovery
import Lineage.Proofs.RuleTables
import Lineage.Proofs.FailureCounts
import Lineage.Proofs.AnswerTexts
