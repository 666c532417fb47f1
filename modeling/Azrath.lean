import Azrath.BodyForwarding
import Azrath.BodyReading
import Azrath.BodyRoundTrips
import Azrath.ExecutorBlocking
import Azrath.ExecutorQueue
import Azrath.ExecutorRefinement
import Azrath.ExecutorWindDown
import Azrath.ParkerReturning
import Azrath.ParkerWakeups
import Azrath.ReactorBatches
import Azrath.ReactorCauses
import Azrath.ReactorLiveness
import Azrath.ReactorRefinement
import Azrath.ReaderStreams
import Azrath.RuntimeLiveness
import Azrath.ServerAccepting
import Azrath.ServerConfiguring
import Azrath.ServiceCalls
import Azrath.TcpStreams
import Azrath.WakerConservation
