import OpenUnion.Safety.ActiveJobs
import OpenUnion.Safety.Agreement
import OpenUnion.Safety.AlarmInbox
import OpenUnion.Safety.AppPage
import OpenUnion.Safety.Attempts
import OpenUnion.Safety.Balances
import OpenUnion.Safety.Blocked
import OpenUnion.Safety.BlockedDomains
import OpenUnion.Safety.BrowserFlow
import OpenUnion.Safety.Budgets
import OpenUnion.Safety.BuyerAuth
import OpenUnion.Safety.Clamd
import OpenUnion.Safety.Contracts
import OpenUnion.Safety.DealNotes
import OpenUnion.Safety.Dedupe
import OpenUnion.Safety.Deleted
import OpenUnion.Safety.Descriptors
import OpenUnion.Safety.Disputes
import OpenUnion.Safety.Evidence
import OpenUnion.Safety.GithubArchive
import OpenUnion.Safety.GithubRepos
import OpenUnion.Safety.Holders
import OpenUnion.Safety.HttpFetch
import OpenUnion.Safety.JobPages
import OpenUnion.Safety.JobStates
import OpenUnion.Safety.KmsSigner
import OpenUnion.Safety.Leases
import OpenUnion.Safety.LostJobs
import OpenUnion.Safety.Migrations
import OpenUnion.Safety.Offers
import OpenUnion.Safety.OrgApps
import OpenUnion.Safety.Origins
import OpenUnion.Safety.Outbox
import OpenUnion.Safety.PaidOrRefunded
import OpenUnion.Safety.Permanence
import OpenUnion.Safety.Pickup
import OpenUnion.Safety.Prices
import OpenUnion.Safety.PrivateAddress
import OpenUnion.Safety.Provenance
import OpenUnion.Safety.Publishing
import OpenUnion.Safety.RateLimit
import OpenUnion.Safety.Refunds
import OpenUnion.Safety.Refusals
import OpenUnion.Safety.Register
import OpenUnion.Safety.Rejected
import OpenUnion.Safety.RepoPolicy
import OpenUnion.Safety.Reputation
import OpenUnion.Safety.Resolve
import OpenUnion.Safety.RpcCall
import OpenUnion.Safety.ScanPaths
import OpenUnion.Safety.Retention
import OpenUnion.Safety.Scans
import OpenUnion.Safety.Search
import OpenUnion.Safety.SensitiveKeys
import OpenUnion.Safety.Served
import OpenUnion.Safety.Splits
import OpenUnion.Safety.SplitterCalls
import OpenUnion.Safety.SplitterPayouts
import OpenUnion.Safety.StoragePaths
import OpenUnion.Safety.Terminal
import OpenUnion.Safety.Tokens
import OpenUnion.Safety.Transfers
import OpenUnion.Safety.UploadBody
import OpenUnion.Safety.Verdicts
import OpenUnion.Safety.VerifierGateway
import OpenUnion.Safety.WebStream
import OpenUnion.Safety.Webhooks
import OpenUnion.JsonText.Doubles
import OpenUnion.JsonText.Merging
import OpenUnion.JsonText.Search
import OpenUnion.Code.AlarmInbox
import OpenUnion.Code.AppPage
import OpenUnion.Code.Contracts
import OpenUnion.Code.WebStream
import OpenUnion.Text.RawText
import OpenUnion.Text.Substitute
import OpenUnion.Interleave.Notes
import OpenUnion.Interleave.Relabel
import OpenUnion.Holdings.Totals
