import Clepsydra.Vault.CanonicalForm
import Clepsydra.Vault.TitleSlug
import Clepsydra.Vault.LinkTargets
import Clepsydra.Vault.Attendance
import Clepsydra.Vault.Conversation
import Clepsydra.Vault.KeptText
import Clepsydra.Vault.AtomicCrash
import Clepsydra.Bases.Grouping
import Clepsydra.Bases.RegionEdits
import Clepsydra.Archive.Retrievable
import Clepsydra.Mutate.Locks
import Clepsydra.Mutate.FolderDelete
import Clepsydra.Mutate.PageDelete
import Clepsydra.Mutate.TagRename
import Clepsydra.Sync.Window
import Clepsydra.Sync.CopyNames
import Clepsydra.Sync.Report
import Clepsydra.Sync.ComparablePair
import Clepsydra.Sync.JournalRefold
import Clepsydra.Sync.MergeFile
import Clepsydra.Search.Ordinary
import Clepsydra.Board.BlockerCycle
import Clepsydra.Board.Race
import Clepsydra.Workspace.Consistent
import Clepsydra.Capture.Finished
import Clepsydra.Capture.Unfinished
import Clepsydra.Capture.Relayed
import Clepsydra.Editor.Separation
import Clepsydra.Editor.Leaving
import Clepsydra.Vault.Projection
import Clepsydra.Bases.Forced
import Clepsydra.Bases.CsvInference
import Clepsydra.Feeds.Additions
import Clepsydra.Archive.Snapshot
import Clepsydra.Vault.Keyring
import Clepsydra.Index.BlockRows
import Clepsydra.Lsp.Title
import Clepsydra.Offline.Controller
import Clepsydra.Feeds.Retention
import Clepsydra.Board.Burndown
import Clepsydra.Bases.EmbedEditor
import Clepsydra.Capture.Coordinator
import Clepsydra.Vault.BlockId
import Clepsydra.Mutate.AnyOrder
import Clepsydra.Sync.ConflictMerge
import Clepsydra.Index.Unlinked
