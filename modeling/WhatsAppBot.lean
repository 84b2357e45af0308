import WhatsAppBot.Analytics.Proof.Daily
import WhatsAppBot.Chat.Proof.Copy
import WhatsAppBot.Chat.Proof.History
import WhatsAppBot.Chat.Proof.PriceGate
import WhatsAppBot.Chat.Proof.Reopening
import WhatsAppBot.Chat.Proof.Trimming
import WhatsAppBot.Knowledge.Proof.Coverage
import WhatsAppBot.Operator.Proof.Audit
import WhatsAppBot.Prompt.Proof.Fence
import WhatsAppBot.Prompt.Proof.Name
import WhatsAppBot.Prompt.Proof.Scripts
import WhatsAppBot.Quota.Proof.Breaker
import WhatsAppBot.Quota.Proof.Isolation
import WhatsAppBot.Quota.Proof.Notices
import WhatsAppBot.Session.State
import WhatsAppBot.Webhook.Proof.CommentReply
import WhatsAppBot.Webhook.Proof.Forward
import WhatsAppBot.Webhook.Proof.OneCompletion
import WhatsAppBot.Webhook.Proof.OneCopy
import WhatsAppBot.Webhook.Proof.OneGoodbye
import WhatsAppBot.Webhook.Proof.OneInvite
import WhatsAppBot.Webhook.Proof.OneVoice
import WhatsAppBot.Webhook.Proof.OneWelcome
import WhatsAppBot.Webhook.Proof.OperatorTarget
import WhatsAppBot.Webhook.Proof.Ownership
import WhatsAppBot.Webhook.Proof.Redelivery
import WhatsAppBot.Webhook.Proof.Refusal
import WhatsAppBot.Webhook.Proof.Resume
import WhatsAppBot.Webhook.Proof.Siblings
import WhatsAppBot.Webhook.Proof.StuckSession
import WhatsAppBot.Webhook.Proof.Thread
import WhatsAppBot.Webhook.Proof.Transcript
import WhatsAppBot.Auth.Proof.History
import WhatsAppBot.Knowledge.Proof.Cuts
import WhatsAppBot.Knowledge.Proof.Rerun
import WhatsAppBot.Classify.Proof.Handoff
import WhatsAppBot.Classify.Proof.Opening
import WhatsAppBot.Auth.Credentials
import WhatsAppBot.Clients.Proof.ListOrder
import WhatsAppBot.Knowledge.Proof.Marker
import WhatsAppBot.Channels.Proof.Parsing
import WhatsAppBot.Webhook.Proof.Columns
import WhatsAppBot.Webhook.Proof.Freshness
import WhatsAppBot.Chat.Proof.Budget
import WhatsAppBot.Clients.Proof.Converge
import WhatsAppBot.Config.Proof.Credentials
import WhatsAppBot.Clients.Proof.OneStream
import WhatsAppBot.Prompt.Proof.Hidden
import WhatsAppBot.Analytics.Nightly
import WhatsAppBot.Analytics.Totals
import WhatsAppBot.Events.Proof.Dashboard
import WhatsAppBot.Knowledge.Retrieval
import WhatsAppBot.Operator.Proof.Retention
import WhatsAppBot.Push.Proof.Notify
import WhatsAppBot.Webhook.Proof.Window
import WhatsAppBot.Webhook.Proof.Migrated
