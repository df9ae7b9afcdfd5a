import Atmin.Interaction.RelyGuarantee
import Atmin.Interaction.Session
import Atmin.Interaction.Rounds
import Atmin.Interaction.Pages
import Atmin.Interaction.Heard
import Atmin.Interaction.ObjectMap
import Atmin.Interaction.Tally
import Atmin.Interaction.Latest
import Atmin.Data.Value
import Atmin.Data.Base64
import Atmin.Server.Paths
import Atmin.Server.Error
import Atmin.Server.Profile
import Atmin.Server.Effect
import Atmin.Server.Auth
import Atmin.Server.Account
import Atmin.Server.Rotate
import Atmin.Server.Inbox
import Atmin.Server.Cleanup
import Atmin.Server.Contracts
import Atmin.Server.Log
import Atmin.Server.Sequential
import Atmin.Server.MediaQuota
import Atmin.Server.Sample
import Atmin.Server.Alone
import Atmin.Access.Footprint
import Atmin.Access.ProfileInvariant
import Atmin.Access.Requests
import Atmin.Access.CredentialFixed
import Atmin.Access.Revocation
import Atmin.Access.Subtrees
import Atmin.Access.Listing
import Atmin.Access.Tokens
import Atmin.Access.AuthProofs
import Atmin.Access.Registration
import Atmin.Rotation.Ledger
import Atmin.Rotation.Writers
import Atmin.Rotation.ExactlyOnce
import Atmin.Rotation.NoRollback
import Atmin.Rotation.KeyChain
import Atmin.Rotation.Resend
import Atmin.Inbox.Contracts
import Atmin.Inbox.Mailbox
import Atmin.Inbox.Steps
import Atmin.Inbox.Compaction
import Atmin.Inbox.NoLoss
import Atmin.Inbox.Outcome
import Atmin.Inbox.Progress
import Atmin.Inbox.Letters
import Atmin.Inbox.Poison
import Atmin.Inbox.Senders
import Atmin.Inbox.Rejection
import Atmin.Access.CutoffRules
import Atmin.Access.Cutoff
import Atmin.Access.HandleOwnership
import Atmin.Retention.Policy
import Atmin.Retention.Deletion
import Atmin.Retention.Retry
import Atmin.Retention.Stragglers
import Atmin.Retention.Verdict
import Atmin.Retention.DryRun
import Atmin.Retention.Resume
import Atmin.Retention.Wipe
import Atmin.Access.HandleReaders
import Atmin.Retention.MediaBound
import Atmin.Sync.Attribution
import Atmin.Sync.Rendering
import Atmin.Sync.Isolation
import Atmin.Interaction.Record
import Atmin.Interaction.Register
import Atmin.Web.ReadMarkers
import Atmin.Web.MarkerBlob
import Atmin.Web.Accounts
import Atmin.Web.Atob
import Atmin.Web.Preview
import Atmin.Web.KeyChain
import Atmin.Web.KeyBackup
import Atmin.Sync.Delivery
import Atmin.Sync.Idempotence
import Atmin.Sync.Previews
import Atmin.Sync.Watermarks
import Atmin.Sync.Convergence
import Atmin.Sync.MarkerLoss
import Atmin.Sync.Clocks
import Atmin.Sync.FutureDates
import Atmin.Sync.Unread
import Atmin.Sync.Visibility
import Atmin.Sync.Fetching
import Atmin.Sync.Separation
import Atmin.Sync.Bubbles
import Atmin.Sync.LastBubble
import Atmin.Sync.Edits
import Atmin.Sync.Replays
import Atmin.Sync.Ratchets
import Atmin.Web.RotateKeys
import Atmin.Rotation.Submissions
import Atmin.Rotation.ChainRace
import Atmin.Data.Utf16
import Atmin.Data.JsonText
import Atmin.Data.JsonRoundTrip
import Atmin.Web.InnerPayload
import Atmin.Data.Regex
import Atmin.Access.HandleShape
import Atmin.Access.ProofOfWork
import Atmin.Sync.PagedListing
import Atmin.Interaction.Machine
import Atmin.Server.KeyedMutex
import Atmin.Server.Refcounts
import Atmin.Server.Exclusion
import Atmin.Access.PowNonces
import Atmin.Data.Firsts
import Atmin.Inbox.Merging
import Atmin.Server.EventHub
import Atmin.Server.Fanout
import Atmin.Data.Logfmt
import Atmin.Server.Logging
import Atmin.Access.RequestLog
import Atmin.Data.Utf8
import Atmin.Web.Filename
import Atmin.Web.Outbound
import Atmin.Sync.KeyDelivery
import Atmin.Web.Argon2Worker
import Atmin.Web.Argon2Calls
import Atmin.Interaction.Slots
import Atmin.Web.UseMedia
import Atmin.Web.MediaUrls
import Atmin.Web.MediaCache
import Atmin.Web.Image
import Atmin.Web.ChatSend
import Atmin.Sync.MediaMessages
import Atmin.Interaction.Intake
import Atmin.Web.KeyRestore
import Atmin.Rotation.KeyVersions
import Atmin.Sync.KeyRestoration
import Atmin.Web.KeyUpload
import Atmin.Sync.BackupVault
import Atmin.Sync.BackupCompaction
import Atmin.Sync.BackupRequests
import Atmin.Sync.BackupDurability
import Atmin.Sync.BackupRecovery
import Atmin.Web.SignIn
import Atmin.Rotation.SignIns
import Atmin.Rotation.PasswordChanges
import Atmin.Rotation.OldBackups
