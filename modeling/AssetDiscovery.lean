import AssetDiscovery.Absence
import AssetDiscovery.Accounts.Access
import AssetDiscovery.Accounts.Auth
import AssetDiscovery.Accounts.Directory
import AssetDiscovery.Accounts.LoginBudget
import AssetDiscovery.Accounts.PasswordPolicy
import AssetDiscovery.Accounts.Runtime
import AssetDiscovery.Accounts.Stage
import AssetDiscovery.ActiveScans
import AssetDiscovery.Alone.Repositories
import AssetDiscovery.Alone.Requests
import AssetDiscovery.Alone.Rules
import AssetDiscovery.Alone.Runs
import AssetDiscovery.Alone.Worker
import AssetDiscovery.Atomicity
import AssetDiscovery.Board
import AssetDiscovery.Collection
import AssetDiscovery.Conformance.Requests
import AssetDiscovery.Conformance.Worker
import AssetDiscovery.Database
import AssetDiscovery.Deletion
import AssetDiscovery.Draining
import AssetDiscovery.ErrorHandling
import AssetDiscovery.Exclusion
import AssetDiscovery.Finality
import AssetDiscovery.Fqdn
import AssetDiscovery.Freshness
import AssetDiscovery.Gate
import AssetDiscovery.Ledger
import AssetDiscovery.Library.DnsName
import AssetDiscovery.Library.Knowledge
import AssetDiscovery.Library.Like
import AssetDiscovery.Library.Names
import AssetDiscovery.Library.Paging
import AssetDiscovery.Library.Pool
import AssetDiscovery.Library.Program
import AssetDiscovery.Library.Runs
import AssetDiscovery.Library.SlidingWindow
import AssetDiscovery.Library.Table
import AssetDiscovery.Listing
import AssetDiscovery.Locks
import AssetDiscovery.Mirroring
import AssetDiscovery.Phase
import AssetDiscovery.Protocol
import AssetDiscovery.RateLimit
import AssetDiscovery.Redelivery
import AssetDiscovery.Retries
import AssetDiscovery.Rows
import AssetDiscovery.Runtime
import AssetDiscovery.Search
import AssetDiscovery.Services
import AssetDiscovery.Session
import AssetDiscovery.Spelling
import AssetDiscovery.Stranding
import AssetDiscovery.Triggers
import AssetDiscovery.UnknownId
import AssetDiscovery.Values
import AssetDiscovery.WellFormed
import AssetDiscovery.Work
import AssetDiscovery.World
import AssetDiscovery.Alone.Foreseen
import AssetDiscovery.Independence
import AssetDiscovery.Accounts.Registration
import AssetDiscovery.Termination
import AssetDiscovery.Progress
import AssetDiscovery.Provenance
import AssetDiscovery.Accounts.Principals
import AssetDiscovery.Accounts.Bootstrap
import AssetDiscovery.Accounts.Sessions
import AssetDiscovery.ReadOnly
import AssetDiscovery.Browsing
import AssetDiscovery.Library.Catalog
import AssetDiscovery.Library.Migration
import AssetDiscovery.Library.Constraints
import AssetDiscovery.Migrations
import AssetDiscovery.Accounts.Schema
import AssetDiscovery.Answered
import AssetDiscovery.Messages
