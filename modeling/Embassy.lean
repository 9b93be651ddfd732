import Embassy.ActivityLog
import Embassy.AdminViews
import Embassy.AgentIdempotency
import Embassy.AuditResidual
import Embassy.CatalogEdits
import Embassy.CatalogService
import Embassy.ChallengeFetch
import Embassy.ChannelDispatch
import Embassy.ConcurrentAudit
import Embassy.DomainClean
import Embassy.EndToEndBooks
import Embassy.HandoffSafety
import Embassy.ItemForm
import Embassy.LlmContract
import Embassy.Mandate
import Embassy.OrderAudit
import Embassy.Polling
import Embassy.QueuedAnswer
import Embassy.RateLimiter
import Embassy.Revocation
import Embassy.SecretMirror
import Embassy.SecretSlots
import Embassy.Tier1Lifetimes
import Embassy.Tier1Limits
import Embassy.Tier1SingleUse
import Embassy.Tier3Queue
