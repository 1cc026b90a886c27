import Ddirc.Conn.SaslPlain
import Ddirc.Conn.Directory
import Ddirc.Conn.Drops
import Ddirc.Conn.ServerTime
import Ddirc.Conn.Pace
import Ddirc.Server.Private
import Ddirc.Mirror.Crowd
import Ddirc.Resume.Agreement
import Ddirc.Xmpp.Locked
import Ddirc.Xmpp.Speaker
import Ddirc.Conn.Chat
import Ddirc.Media.Scan
import Ddirc.Client.Modes
import Ddirc.Conn.Joined
import Ddirc.App.Network
import Ddirc.App.Blocked
import Ddirc.Dcc.Interrupted
import Ddirc.Dcc.Received
import Ddirc.Conn.Mention
import Ddirc.Xmpp.Waiting
import Ddirc.Xmpp.Rejoin
import Ddirc.Xmpp.Own
import Ddirc.Xmpp.Takeover
import Ddirc.Xmpp.Typed
import Ddirc.Conn.Proxied
import Ddirc.App.Allowed
import Ddirc.App.Disconnected
import Ddirc.Xmpp.Strangers
import Ddirc.History.Migration
import Ddirc.History.Forgotten
import Ddirc.Mirror.Listed
import Ddirc.Manager.Desk
import Ddirc.Xmpp.Response
import Ddirc.Server.Reader
