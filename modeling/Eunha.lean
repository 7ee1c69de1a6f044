import Eunha.FeedRemoval
import Eunha.FeedAggregation
import Eunha.StreamingAgreement
import Eunha.StreamKills
import Eunha.Sessions
import Eunha.Backups
import Eunha.TenantDispatch
import Eunha.FaspAnnouncements
import Eunha.WorkerBatches
import Eunha.FeedPaging
import Eunha.FeedPopulating
import Eunha.EmailBatches
import Eunha.ImportAccounting
import Eunha.JobQueueExclusivity
import Eunha.JobQueueRetries
import Eunha.Csv
import Eunha.CertificateChains
import Eunha.SanitizerIdempotence
import Eunha.RecoveryCodes
import Eunha.InboxAuthority
import Eunha.FollowLifecycle
import Eunha.InboxOrder
import Eunha.EditHistory
import Eunha.ScheduledPosts
import Eunha.PublishedOnce
import Eunha.LocalActors
import Eunha.KeyOwnership
import Eunha.SigningKeysKept
import Eunha.FaspAnswers
import Eunha.AccountMergingKept
import Eunha.OAuthConfined
import Eunha.Invites
import Eunha.FeedFollows
import Eunha.StatusRemoval
import Eunha.CollectionOwnership
import Eunha.CollectionRequests
import Eunha.NoteSurvival
import Eunha.FormattingLossless
import Eunha.SearchGrammar
import Eunha.DerReading
import Eunha.RailsEncryption
import Eunha.DomainFrames
import Eunha.DeliveryFailures
import Eunha.Base32Secrets
import Eunha.ReplyWalks
import Eunha.ThreadShape
import Eunha.BatchAgreement
import Eunha.RemotePolls
import Eunha.InteractionPolicies
import Eunha.ListMemberships
import Eunha.ListPages
import Eunha.IpBlocks
import Eunha.RsaSignatures
import Eunha.RoleChanges
import Eunha.RuleTranslations
import Eunha.AccountActions
import Eunha.Appeals
import Eunha.Trends
import Eunha.NotificationWrites
import Eunha.PollExpiry
import Eunha.PollEdits
import Eunha.SignedMessages
import Eunha.TagSpellings
import Eunha.LinkVerification
import Eunha.Conversations
import Eunha.ModerationActions
import Eunha.HashtagTimelines
import Eunha.RedisLocks
