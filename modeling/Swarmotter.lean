import Swarmotter.Bandwidth
import Swarmotter.Daemon.Admission
import Swarmotter.Daemon.PeerAddresses
import Swarmotter.Daemon.Reconcile
import Swarmotter.Engine.Availability
import Swarmotter.Engine.Framing
import Swarmotter.Engine.Publish
import Swarmotter.Engine.Requests
import Swarmotter.Engine.Reservations
import Swarmotter.Engine.Rotation
import Swarmotter.Engine.Serve
import Swarmotter.Engine.Webseed
import Swarmotter.Health
import Swarmotter.Meta.MagnetTrackers
import Swarmotter.Metadata.UtMetadata
import Swarmotter.Mse.Secret
import Swarmotter.Mse.Stream
import Swarmotter.Net.GateCalls
import Swarmotter.Net.Lookup
import Swarmotter.Peer.PexCodec
import Swarmotter.PieceCount
import Swarmotter.Seeder.Registry
import Swarmotter.Storage.Finalize
import Swarmotter.Storage.HandleUses
import Swarmotter.Tracker.Response
import Swarmotter.Utp.Accepted
import Swarmotter.Utp.Closing
import Swarmotter.Utp.Echo
import Swarmotter.Utp.Numbering
import Swarmotter.Utp.Shutdown
