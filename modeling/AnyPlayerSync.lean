import AnyPlayerSync.Foundation.Broadcast
import AnyPlayerSync.Foundation.Collapse
import AnyPlayerSync.Foundation.Components
import AnyPlayerSync.Foundation.Greedy
import AnyPlayerSync.Foundation.Join
import AnyPlayerSync.Foundation.Locks
import AnyPlayerSync.Foundation.Machine
import AnyPlayerSync.Foundation.Observations
import AnyPlayerSync.Foundation.Offsets
import AnyPlayerSync.Foundation.Packs
import AnyPlayerSync.Foundation.Pages
import AnyPlayerSync.Foundation.Percent
import AnyPlayerSync.Foundation.Programs
import AnyPlayerSync.Foundation.Registers
import AnyPlayerSync.Foundation.Spacing
import AnyPlayerSync.Foundation.Json
import AnyPlayerSync.Foundation.Table
import AnyPlayerSync.Foundation.Text
import AnyPlayerSync.Foundation.TextParts
import AnyPlayerSync.Keys.MatchKeys
import AnyPlayerSync.Keys.KeyWords
import AnyPlayerSync.Keys.Credits
import AnyPlayerSync.Keys.Cuts
import AnyPlayerSync.Keys.Qualifiers
import AnyPlayerSync.Keys.Spellings
import AnyPlayerSync.Keys.BaseTitle
import AnyPlayerSync.Sync.Model
import AnyPlayerSync.Sync.Documents
import AnyPlayerSync.Sync.Hub
import AnyPlayerSync.Sync.Refinement
import AnyPlayerSync.Sync.Server
import AnyPlayerSync.Sync.Isolation
import AnyPlayerSync.Sync.Versions
import AnyPlayerSync.Sync.Subscribers
import AnyPlayerSync.Sync.Sockets
import AnyPlayerSync.Accounts.Model
import AnyPlayerSync.Accounts.Tokens
import AnyPlayerSync.Accounts.Bootstrap
import AnyPlayerSync.Facts.Model
import AnyPlayerSync.Facts.Plays
import AnyPlayerSync.Facts.Rounds
import AnyPlayerSync.Facts.FactSources
import AnyPlayerSync.Facts.Contributions
import AnyPlayerSync.Facts.Support
import AnyPlayerSync.Facts.Urls
import AnyPlayerSync.Facts.Fetch
import AnyPlayerSync.Passages.Model
import AnyPlayerSync.Passages.Chunk
import AnyPlayerSync.Passages.Packing
import AnyPlayerSync.Passages.Blanks
import AnyPlayerSync.Passages.Jobs
import AnyPlayerSync.Passages.Worker
import AnyPlayerSync.Passages.Queue
import AnyPlayerSync.Passages.Leases
import AnyPlayerSync.Passages.Outcomes
import AnyPlayerSync.Passages.Misses
import AnyPlayerSync.Passages.Enqueue
import AnyPlayerSync.Passages.Linearize
import AnyPlayerSync.Passages.Attempts
import AnyPlayerSync.Passages.Retries
import AnyPlayerSync.Passages.Turns
import AnyPlayerSync.Passages.Quota
import AnyPlayerSync.Passages.Rank
import AnyPlayerSync.Passages.Selection
import AnyPlayerSync.Passages.Exact
import AnyPlayerSync.Passages.Store
import AnyPlayerSync.Passages.Rewrite
import AnyPlayerSync.Passages.Lookup
import AnyPlayerSync.Passages.Transactions
import AnyPlayerSync.Passages.Consistency
import AnyPlayerSync.Passages.ChunkIds
import AnyPlayerSync.Passages.Uploads
import AnyPlayerSync.Passages.Ingest
import AnyPlayerSync.Passages.Api
import AnyPlayerSync.Passages.Sound
import AnyPlayerSync.Passages.Plays
import AnyPlayerSync.Sources.Http
import AnyPlayerSync.Sources.Client
import AnyPlayerSync.Sources.Requests
import AnyPlayerSync.Sources.Clean
import AnyPlayerSync.Sources.Truncate
import AnyPlayerSync.Sources.Wikipedia
import AnyPlayerSync.Sources.MusicBrainz
import AnyPlayerSync.Sources.Wikidata
import AnyPlayerSync.Sources.Songfacts
import AnyPlayerSync.Sources.LastFm
import AnyPlayerSync.Sources.Genius
import AnyPlayerSync.Sources.Lyrics
import AnyPlayerSync.Sources.All
import AnyPlayerSync.Sources.Articles
import AnyPlayerSync.Sources.Subjects
import AnyPlayerSync.Sources.Coverage
import AnyPlayerSync.Sources.Found
import AnyPlayerSync.Sources.Links
import AnyPlayerSync.Sources.Performers
import AnyPlayerSync.Sources.Scope
import AnyPlayerSync.Sources.Secrets
import AnyPlayerSync.Sources.Hosts
import AnyPlayerSync.Sources.Queries
import AnyPlayerSync.Server.Model
import AnyPlayerSync.Server.Handlers
import AnyPlayerSync.Server.UserCalls
import AnyPlayerSync.Server.Routes
import AnyPlayerSync.Server.Frame
import AnyPlayerSync.Server.Reports
import AnyPlayerSync.Server.Undisturbed
import AnyPlayerSync.Server.Paging
import AnyPlayerSync.Server.Catalog
import AnyPlayerSync.Server.Schema
import AnyPlayerSync.Server.Startup
import AnyPlayerSync.Server.Starts
import AnyPlayerSync.Server.Integrity
import AnyPlayerSync.Server.Access
import AnyPlayerSync.Server.Config
