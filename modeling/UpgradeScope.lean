import UpgradeScope.Server.NotifyRuns
import UpgradeScope.Engine.Evidence
import UpgradeScope.Engine.Duplicates
import UpgradeScope.Engine.Conformed
import UpgradeScope.Engine.UniqueKeys
import UpgradeScope.Engine.Budget
import UpgradeScope.Engine.Termination
import UpgradeScope.Engine.Rising
import UpgradeScope.Engine.Coverage
import UpgradeScope.Suppress.Conserve
import UpgradeScope.Suppress.Globs
import UpgradeScope.Store.Prune
import UpgradeScope.Server.Deliveries
import UpgradeScope.Server.Adoption
import UpgradeScope.Server.Refresh
import UpgradeScope.Agent.Push
import UpgradeScope.Server.Holds
import UpgradeScope.Server.PassRows
import UpgradeScope.Kb.Replacements
import UpgradeScope.Engine.Callers
import UpgradeScope.Suppress.Verdicts
import UpgradeScope.Engine.Plan
import UpgradeScope.Engine.Ranges
import UpgradeScope.Engine.InstallOrder
import UpgradeScope.Server.GateMerge
import UpgradeScope.Engine.Distances
import UpgradeScope.Collect.EvidenceOrder
import UpgradeScope.Engine.MapOrder
import UpgradeScope.Server.GateOmitted
import UpgradeScope.Suppress.Namespaces
import UpgradeScope.Server.ScopedGate
import UpgradeScope.Server.EmptyStream
import UpgradeScope.Server.PostedStream
import UpgradeScope.Collect.Revisions
import UpgradeScope.Server.JsonCost
import UpgradeScope.Server.JsonEncoding
import UpgradeScope.Server.ManifestStream
import UpgradeScope.Collect.ManifestParse
import UpgradeScope.Server.AliasCost
import UpgradeScope.Collect.DiscoveryOrder
import UpgradeScope.Server.MergedChanges
import UpgradeScope.Collect.DiscoveryCache
import UpgradeScope.Collect.HelmFetch
import UpgradeScope.Server.BodyBudget
import UpgradeScope.Server.SecretFile
import UpgradeScope.Server.Tokens
import UpgradeScope.Collect.Redact
import UpgradeScope.Collect.ClaimedOnce
import UpgradeScope.Collect.HelmCache
import UpgradeScope.Collect.PodPass
import UpgradeScope.Server.TeamsCache
import UpgradeScope.Server.TeamLists
import UpgradeScope.Inventory.VersionJson
import UpgradeScope.Server.TimeColumns
import UpgradeScope.Store.Identity
import UpgradeScope.Server.HostCheck
import UpgradeScope.Server.ReadGrants
import UpgradeScope.Server.Export
import UpgradeScope.Reports.Gates
import UpgradeScope.Reports.Sarif
import UpgradeScope.Server.JudgedView
import UpgradeScope.Mcp.Members
import UpgradeScope.Server.FleetRollup
import UpgradeScope.Agent.Observe
