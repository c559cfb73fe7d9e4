import Delonix.Library.Text
import Delonix.Library.Runs
import Delonix.Library.Collections
import Delonix.Library.KeyedFiles
import Delonix.Library.Checks
import Delonix.Library.Pieces
import Delonix.Library.DebugText
import Delonix.Library.Words
import Delonix.Library.FileTree
import Delonix.Library.Sorting
import Delonix.Library.Json
import Delonix.Library.Lines
import Delonix.Library.MarkedBlocks
import Delonix.Library.Faults
import Delonix.Net.Cidr
import Delonix.Net.IpText
import Delonix.Net.DhcpPool
import Delonix.Ipam.Registry
import Delonix.Ipam.Keys
import Delonix.Ipam.Leases
import Delonix.Ipam.ReapPass
import Delonix.Ipam.Operations
import Delonix.Ipam.Preferred
import Delonix.Ipam.Probing
import Delonix.Ipam.Uniqueness
import Delonix.Ipam.Reaping
import Delonix.Stack.Reconcile
import Delonix.Stack.Convergence
import Delonix.Stack.Coverage
import Delonix.Stack.Manifest
import Delonix.Stack.PlanDigest
import Delonix.Stack.StalePlan
import Delonix.Stack.Apply
import Delonix.Stack.Ownership
import Delonix.Stack.History
import Delonix.GitOps.Spec
import Delonix.GitOps.Spelling
import Delonix.GitOps.Guard
import Delonix.GitOps.Flattening
import Delonix.GitOps.SelfGuard
import Delonix.GitOps.Scope
import Delonix.GitOps.Policy
import Delonix.Firewall.Ir
import Delonix.Firewall.Gateway
import Delonix.Firewall.GatewayVerdict
import Delonix.Firewall.Namespaces
import Delonix.Firewall.Record
import Delonix.Firewall.Nft
import Delonix.Firewall.NftWords
import Delonix.Firewall.NftVerdict
import Delonix.Images.Reference
import Delonix.Images.Pinning
import Delonix.Images.Layers
import Delonix.Images.Whiteouts
import Delonix.Images.Records
import Delonix.Images.Download
import Delonix.Images.Resume
import Delonix.Images.Upload
import Delonix.Images.Sessions
import Delonix.Dns.Index
import Delonix.Dns.Sources
import Delonix.Dns.Scoping
import Delonix.Dns.Order
import Delonix.Dns.Wire
import Delonix.Vip.Script
import Delonix.Vip.Rounds
import Delonix.Vip.Readiness
import Delonix.Store.Lookup
import Delonix.Store.Update
import Delonix.Store.Resolved
import Delonix.Store.Tenants
import Delonix.Operations.Ledger
import Delonix.Operations.Terminal
import Delonix.Operations.Requests
import Delonix.Revisions.Record
import Delonix.Revisions.Coherence
import Delonix.Networking.OwnerMarks
import Delonix.Networking.Fingerprint
import Delonix.Networking.Staleness
import Delonix.Security.Redact
import Delonix.Security.Noninterference
import Delonix.Security.Seccomp
import Delonix.Security.SeccompEnforced
import Delonix.Security.Capabilities
import Delonix.Security.Ceiling
import Delonix.Regulate.Planner
import Delonix.Regulate.Undoing
import Delonix.Secrets.Vault
import Delonix.Secrets.Update
import Delonix.Secrets.Rotation
import Delonix.Secrets.Processes
import Delonix.Secrets.Coherence
import Delonix.Storage.Pools
import Delonix.Storage.Allowlist
import Delonix.Storage.PoolAdmin
import Delonix.Storage.Helper
import Delonix.Storage.Boundary
import Delonix.Storage.DirPool
import Delonix.Storage.DirRecovery
import Delonix.Storage.ThinPool
import Delonix.Storage.ThinRecovery
import Delonix.Storage.PoolRuns
import Delonix.Volumes.Store
import Delonix.Volumes.Confined
import Delonix.Volumes.NameChecks
import Delonix.Volumes.Removal
import Delonix.Volumes.OwnData
import Delonix.Volumes.Unmounted
import Delonix.Proxmox.SdnLock
import Delonix.Proxmox.SdnCommits
import Delonix.Prune.Volumes
import Delonix.Prune.VolumesKept
import Delonix.Prune.Sweeps
import Delonix.Prune.ImagesKept
import Delonix.Prune.DryRun
import Delonix.IpPool.Addresses
import Delonix.IpPool.Ledger
import Delonix.IpPool.OneHolder
import Delonix.Hosts.Names
import Delonix.Hosts.OtherRoots
import Delonix.Hosts.OwnBlock
import Delonix.Hosts.Render
import Delonix.Ingress.RequestHeaders
import Delonix.Ingress.Forwarding
import Delonix.Ingress.AutoRoutes
import Delonix.Ingress.Config
import Delonix.Ingress.PickRoute
import Delonix.Library.KeyedMerge
import Delonix.Compose.Names
import Delonix.Compose.Apart
import Delonix.Compose.Shlex
import Delonix.Compose.AnonymousRanks
import Delonix.Compose.StartSound
import Delonix.Backup.CronFires
import Delonix.Backup.Archives
import Delonix.Scanner.Sbom
import Delonix.Library.Greedy
import Delonix.Net.RoutePlan
import Delonix.Net.CidrExact
import Delonix.Vip.Lease
import Delonix.Vip.LeaseKept
import Delonix.Library.Fields
import Delonix.Operations.Fingerprint
import Delonix.Images.UploadEnds
import Delonix.Images.Tagging
import Delonix.Library.LayeredPaths
import Delonix.Images.FlatExport
import Delonix.Firewall.RuleTail
import Delonix.Firewall.RuleKeys
import Delonix.Firewall.VerdictMap
import Delonix.Firewall.Counters
import Delonix.Firewall.Transaction
import Delonix.Security.RedactLines
import Delonix.Security.Tokens
import Delonix.Security.PemBodies
import Delonix.Stack.Deltas
import Delonix.Library.FirstFound
import Delonix.Networking.GatewayDrift
import Delonix.Networking.IpamDrift
import Delonix.Networking.HexChannel
import Delonix.Networking.Registry
import Delonix.Spdy.Sessions
import Delonix.Library.Paging
import Delonix.Operations.Listing
import Delonix.Library.Utf8
import Delonix.Build.DockerIgnore
import Delonix.Library.Globs
import Delonix.Build.IgnoreClasses
import Delonix.Build.IgnoreMeaning
import Delonix.Devices.Cdi
import Delonix.Devices.Precedence
import Delonix.Vip.Guard
import Delonix.Images.StoredTag
import Delonix.Build.Substitute
import Delonix.Build.Expansion
import Delonix.Spdy.Frames
import Delonix.Spdy.Writer
import Delonix.Spdy.Conserved
import Delonix.Spdy.Exec
import Delonix.Spdy.Stdin
import Delonix.Spdy.HeaderBlock
import Delonix.Images.Owners
import Delonix.Lifecycle.Record
import Delonix.Lifecycle.Operations
import Delonix.Lifecycle.Transitions
import Delonix.Lifecycle.Identity
import Delonix.Lifecycle.Desired
import Delonix.Compose.MergedMeaning
import Delonix.Compose.Extends
