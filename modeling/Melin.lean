import Melin.Client.PolledStreams
import Melin.Dpdk.BacklogLaws
import Melin.Dpdk.RxChecksumLaws
import Melin.Examples.NotaryAudit
import Melin.Failover.AdvertisedTip
import Melin.Failover.PromotionEpochs
import Melin.Gate.PolicyExact
import Melin.Gate.Tenures
import Melin.Halt.PresenceLaws
import Melin.Ingress.ClientFramesLaws
import Melin.Journal.CanonicalCodec
import Melin.Journal.VectoredWrite
import Melin.Pipeline.BatchFits
import Melin.Pipeline.DisruptorRing
import Melin.Pipeline.LiveReplay
import Melin.Pipeline.SeqLock
import Melin.Replication.AckRing
import Melin.Replication.Admission
import Melin.Replication.ChunkedBody
import Melin.Replication.JoinDelivery
import Melin.Replication.Mirror
import Melin.Transport.ChainAgreement
import Melin.Transport.Genesis
import Melin.Transport.SnapshotCanonical
import Melin.Transport.SnapshotFile
import Melin.Transport.TamperEvidence
import Melin.Wire.FrameSplitting
import Melin.Wire.Refusals
