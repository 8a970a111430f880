import Septem.Servo.PacketStream
import Septem.Servo.PacketDelivery
import Septem.Servo.IntegrityChecks
import Septem.Servo.WireCompatibility
import Septem.Servo.DecoderSafety
import Septem.Servo.Corruption
import Septem.Servo.PacketReuse
import Septem.Servo.PacketRecycling
import Septem.Servo.StackDelivery
import Septem.Servo.ProtocolFactory
import Septem.Core.DirectedGraphRefinement
import Septem.Core.BackwardGraphAlignment
import Septem.Core.SingletonGet
import Septem.Core.TaskThreadStop
import Septem.Core.TaskThreadOrder
import Septem.Core.GraphLoading
import Septem.Core.CanonicalSerialize
import Septem.Core.SearchAgreement
import Septem.Core.BufferAccesses
import Septem.Servo.ProtocolDispatch
import Septem.Servo.BodyReads
import Septem.Core.GraphLookups
import Septem.Core.BackwardGraphLoading
import Septem.Core.UEStyleLoading
import Septem.Servo.DispatchRouting
import Septem.Servo.PacketLifecycle
import Septem.Core.RecyclePoolThreads
import Septem.Servo.StreamSegments
import Septem.Servo.PacketCounterThreads
import Septem.Sockets.StreambufSocket
import Septem.Core.SearchCost
import Septem.Core.TaskThreadWorkers
import Septem.Sockets.SocketServer
import Septem.Servo.PacketTransport
