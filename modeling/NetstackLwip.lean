import NetstackLwip.ReceiverRules
import NetstackLwip.OutputCell
import NetstackLwip.LockDiscipline
import NetstackLwip.UdpSockets
import NetstackLwip.SinkDelivery
import NetstackLwip.HalfClose
import NetstackLwip.ReadBuffer
import NetstackLwip.PersistTimer
import NetstackLwip.SegmentSizes
import NetstackLwip.SequenceTests
import NetstackLwip.MtuBound
import NetstackLwip.Ip6Fragments
import NetstackLwip.Ip4RoundTrip
import NetstackLwip.WriteAtomicity
import NetstackLwip.FailedCreation
import NetstackLwip.AdvertisedWindow
import NetstackLwip.QueueShape
import NetstackLwip.WindowCredit
import NetstackLwip.OrderlyClose
import NetstackLwip.EmittedChecksums
import NetstackLwip.ReassemblyBudget
import NetstackLwip.SegmentWire
import NetstackLwip.SentStream
import NetstackLwip.SoundSegments
import NetstackLwip.SentChecksums
