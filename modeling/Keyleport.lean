import Keyleport.Discovery.Announcing
import Keyleport.Discovery.Candidates
import Keyleport.Discovery.Convergence
import Keyleport.Discovery.Departures
import Keyleport.Discovery.Exceptions
import Keyleport.Discovery.Expiry
import Keyleport.Discovery.Freshness
import Keyleport.Discovery.Identity
import Keyleport.Discovery.Malformed
import Keyleport.Discovery.Order
import Keyleport.Discovery.PeerState
import Keyleport.Discovery.Socket
import Keyleport.Discovery.SoftState
import Keyleport.Discovery.Sweep
import Keyleport.Gui.UiDispatch
import Keyleport.Gui.WindowLifecycle
import Keyleport.Keyboard.Aliasing
import Keyleport.Keyboard.Decoders
import Keyleport.Keyboard.Macos.HeldKeys
import Keyleport.Keyboard.Windows.HeldKeys
import Keyleport.Networking.Delivery
import Keyleport.Sender.Conservation
import Keyleport.Sender.Fractions
import Keyleport.Sender.HeldKeys
import Keyleport.Sender.LinkDelivery
import Keyleport.Sender.LinkKeys
import Keyleport.Sender.Overflow
import Keyleport.Sender.Reliable
import Keyleport.Sender.Scrolling
import Keyleport.Sender.Stopping
import Keyleport.Services.Communication
import Keyleport.Services.Lifecycle
import Keyleport.Session.Exceptions
import Keyleport.Session.Handshake
import Keyleport.Session.Pinning
import Keyleport.Session.Server
import Keyleport.Session.Subscription
import Keyleport.Session.Unheard
import Keyleport.States.Notification
import Keyleport.Utils.Cli
import Keyleport.Utils.Emission
