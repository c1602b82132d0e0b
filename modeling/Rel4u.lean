import Rel4u.Lib.Serial
import Rel4u.Lib.Ring
import Rel4u.Lib.Deque
import Rel4u.Lib.BigEndian
import Rel4u.Lib.Batches
import Rel4u.Lib.JacobsonKarels
import Rel4u.Lib.Records
import Rel4u.Wire.Packet
import Rel4u.Wire.Codec
import Rel4u.Queue.Mpmc
import Rel4u.Queue.Fixed
import Rel4u.Queue.Dynamic
import Rel4u.Queue.Refine
import Rel4u.Queue.Run
import Rel4u.Queue.DynamicRun
import Rel4u.Queue.Refused
import Rel4u.Window.Rtt
import Rel4u.Window.RttRun
import Rel4u.Window.Send
import Rel4u.Window.SendInv
import Rel4u.Window.Samples
import Rel4u.Window.AckLaws
import Rel4u.Window.Reclaim
import Rel4u.Window.Expiry
import Rel4u.Window.Recv
import Rel4u.Window.RecvInv
import Rel4u.Window.RecvRun
import Rel4u.Window.Unreliable
import Rel4u.Worker.Shared
import Rel4u.Worker.SharedInv
import Rel4u.Worker.SendRun
import Rel4u.Worker.Karn
import Rel4u.Worker.Chunks
import Rel4u.Platform.Net
import Rel4u.Session.Table
import Rel4u.Session.TableInv
import Rel4u.Session.Allocate
import Rel4u.Server.Model
import Rel4u.Server.Run
import Rel4u.Server.TableRun
import Rel4u.Server.Address
import Rel4u.Server.Slot
import Rel4u.Client.Model
import Rel4u.Client.Run
import Rel4u.Client.Reconnect
import Rel4u.Channel.Sack
import Rel4u.Channel.InStep
import Rel4u.Channel.Delivery
import Rel4u.Channel.Run
import Rel4u.Channel.Link
import Rel4u.Channel.Acts
import Rel4u.Worker.Isolation
import Rel4u.Worker.Inbox
import Rel4u.Worker.Bounds
import Rel4u.Worker.Drain
import Rel4u.System.Model
import Rel4u.System.ClientEffect
import Rel4u.System.ServerEffect
import Rel4u.System.Sync
import Rel4u.System.Handshake
import Rel4u.System.Reset
import Rel4u.Worker.Provenance
import Rel4u.Worker.Lengths
import Rel4u.Lib.CondVar
import Rel4u.Queue.Wait
import Rel4u.Channel.Progress
import Rel4u.Channel.Sequenced
import Rel4u.Server.Turn
import Rel4u.Server.Duties
import Rel4u.Server.Keepalive
import Rel4u.Channel.Exact
import Rel4u.System.Exact
