import QuakeKube.Content.GameClient
import QuakeKube.Content.Packs
import QuakeKube.Content.Manifest
import QuakeKube.Server.Reload
import QuakeKube.Server.Watch
import QuakeKube.Server.Waits
import QuakeKube.Server.Metrics
import QuakeKube.Operator.Webhook
import QuakeKube.Operator.Merge
import QuakeKube.Operator.MergeLaws
import QuakeKube.Operator.QuotedTexts
import QuakeKube.Operator.Routes
import QuakeKube.Operator.Status
import QuakeKube.Operator.Settled
import QuakeKube.Operator.Propagation
import QuakeKube.Operator.UsedBy
import QuakeKube.Net.Reply
import QuakeKube.Net.Accepted
import QuakeKube.Client.Proxy
import QuakeKube.Pipeline.Limits
import QuakeKube.Pipeline.Settings
import QuakeKube.Content.MapList
import QuakeKube.Content.Mirrored
import QuakeKube.Browser.Startup
import QuakeKube.Server.InForce
import QuakeKube.Pipeline.InForce
import QuakeKube.Client.Ended
import QuakeKube.Browser.Line
import QuakeKube.Operator.Servers
import QuakeKube.Content.OneByOne
