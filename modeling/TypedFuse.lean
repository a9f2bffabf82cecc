import TypedFuse.Conc.Prog
import TypedFuse.Conc.Service
import TypedFuse.Conc.Logic
import TypedFuse.Conc.Sequential
import TypedFuse.Conc.Guarantees
import TypedFuse.Conc.Trace
import TypedFuse.Conc.Discipline
import TypedFuse.Conc.Exclusive
import TypedFuse.Data.BTreeMap
import TypedFuse.Data.ObjectTree
import TypedFuse.Data.Paging
import TypedFuse.Data.Splitting
import TypedFuse.Core.NodeTable
import TypedFuse.Core.Identity
import TypedFuse.Core.Types
import TypedFuse.Core.Handles
import TypedFuse.Core.NodeFs
import TypedFuse.Core.Runtime
import TypedFuse.Core.Accounting
import TypedFuse.Core.HandleProtocol
import TypedFuse.Core.Tokens
import TypedFuse.Core.Sections
import TypedFuse.Core.Triples
import TypedFuse.Core.Soundness
import TypedFuse.Core.Sample
import TypedFuse.Core.Safety
import TypedFuse.Core.Frame
import TypedFuse.Core.Excess
import TypedFuse.Core.ErrorReply
import TypedFuse.Core.Routing
import TypedFuse.Core.Custody
import TypedFuse.Core.LateExits
import TypedFuse.Core.Reclaim
import TypedFuse.Core.DropGlue
import TypedFuse.Core.Books
import TypedFuse.Core.Destructors
import TypedFuse.Core.Pinning
import TypedFuse.Core.Progress
import TypedFuse.Core.ClientCalls
import TypedFuse.Path.Namespace
import TypedFuse.Path.PathFs
import TypedFuse.Path.Links
import TypedFuse.Path.Guards
import TypedFuse.Path.Guarding
import TypedFuse.Path.Callbacks
import TypedFuse.Path.PathSample
import TypedFuse.Path.Binding
import TypedFuse.Path.Keys
import TypedFuse.Path.Effects
import TypedFuse.Path.Walk
import TypedFuse.Path.Rename
import TypedFuse.Path.Creation
import TypedFuse.Path.Enumeration
import TypedFuse.Path.Backed
import TypedFuse.Path.Keeping
import TypedFuse.Path.Rooted
import TypedFuse.Path.Dangling
import TypedFuse.Path.Ascent
import TypedFuse.Path.Termination
import TypedFuse.Path.Stable
import TypedFuse.Path.Unlinked
import TypedFuse.Path.Inserted
import TypedFuse.Path.Rollback
import TypedFuse.Path.TreeFilesystem
import TypedFuse.Path.Scene
import TypedFuse.Path.Objects
import TypedFuse.Path.Represented
import TypedFuse.Path.TreeSample
import TypedFuse.Path.TreeRefinement
import TypedFuse.Path.Progress
import TypedFuse.Path.OneGuard
import TypedFuse.Path.RecordLocks
import TypedFuse.Codec.Time
import TypedFuse.Codec.Timestamp
import TypedFuse.Codec.FileLock
import TypedFuse.Codec.Options
import TypedFuse.Codec.Permission
import TypedFuse.Session.DirBuffer
import TypedFuse.Session.Listing
import TypedFuse.Session.Pages
import TypedFuse.Session.Retained
import TypedFuse.Session.Served
import TypedFuse.Session.Delivery
import TypedFuse.Memory.MemoryFs
import TypedFuse.Memory.Callbacks
import TypedFuse.Memory.Tree
import TypedFuse.Memory.View
import TypedFuse.Memory.Contents
import TypedFuse.Memory.Steps
import TypedFuse.Memory.Refines
import TypedFuse.Memory.Rename
import TypedFuse.Memory.Serving
import TypedFuse.Memory.Consistent
import TypedFuse.Memory.FileHistory
