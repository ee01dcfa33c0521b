import Sencd.HandshakeAuthentication
import Sencd.ReturnPath
import Sencd.Delivery
import Sencd.TunnelAddress
import Sencd.ReplyRouting
import Sencd.Registration
import Sencd.TableRefinement
import Sencd.DatagramIntegrity
import Sencd.FrameRoundTrip
import Sencd.SessionIdAgreement
import Sencd.PinDurability
import Sencd.ListenerSockets
import Sencd.ClientTeardown
import Sencd.PacketMemory
import Sencd.IdentityPersistence
import Sencd.TunnelBuffers
import Sencd.TunDispatch
import Sencd.SenderCapacity
import Sencd.ListenerRemoval
import Sencd.LabelledPath
import Sencd.SessionHistory
import Sencd.RegistrationOrder
import Sencd.TunnelService
import Sencd.ServerThreads
import Sencd.ServerShutdown
import Sencd.TunnelThreads
import Sencd.ClientReceiver
import Sencd.SystemThreads
import Sencd.SystemAuthenticity
import Sencd.StartUp
import Sencd.ServerProcess
