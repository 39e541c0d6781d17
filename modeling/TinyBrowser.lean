import TinyBrowser.Cookies.Restore
import TinyBrowser.Cookies.Sites
import TinyBrowser.Cookies.Header
import TinyBrowser.History.Landed
import TinyBrowser.History.Matched
import TinyBrowser.History.Predicted
import TinyBrowser.History.Uncommitted
import TinyBrowser.History.Pushed
import TinyBrowser.Tab.Replace
import TinyBrowser.Tab.Rollback
import TinyBrowser.Tabs.Inherit
import TinyBrowser.Tabs.Group
import TinyBrowser.Exchange.Replies
import TinyBrowser.Exchange.Stranded
import TinyBrowser.Exchange.Once
import TinyBrowser.Dial.Verified
import TinyBrowser.Dial.Reuse
import TinyBrowser.Dial.Safelist
import TinyBrowser.Dial.Capacity
import TinyBrowser.Dial.Nosniff
import TinyBrowser.Net.Credentials
import TinyBrowser.Net.CorsCheck
import TinyBrowser.Net.Referred
import TinyBrowser.Net.SniffHtml
import TinyBrowser.Wire.Frames
import TinyBrowser.Storage.Replay
import TinyBrowser.Profile.Save
import TinyBrowser.Renderer.Released
import TinyBrowser.Renderer.Strays
import TinyBrowser.Renderer.Locked
import TinyBrowser.Document.Settled
import TinyBrowser.Dom.Replay
import TinyBrowser.Dom.DocumentCalls
import TinyBrowser.Dom.RemovedRanges
import TinyBrowser.Dom.Equality
import TinyBrowser.Dom.DomString
import TinyBrowser.Dom.ExactText
import TinyBrowser.Dom.StartedCalls
import TinyBrowser.Dom.Markup
import TinyBrowser.Dom.ComparePosition
import TinyBrowser.Dom.AttributeRanges
import TinyBrowser.Messaging.Carried
import TinyBrowser.Csp.Upgrade
import TinyBrowser.Forms.RangeAlignment
import TinyBrowser.Forms.EntryOrder
import TinyBrowser.Forms.SelectRuns
import TinyBrowser.Forms.StepMismatch
import TinyBrowser.Forms.NumberBuffer
import TinyBrowser.Dial.Keepalive
import TinyBrowser.Cookies.CivilTimes
import TinyBrowser.Cookies.Matching
import TinyBrowser.Net.Splitting
import TinyBrowser.Document.TimerOrder
import TinyBrowser.Sniff.Encoding
import TinyBrowser.Child.Answered
import TinyBrowser.FrameTree.Sound
import TinyBrowser.Frames.Unrecorded
