import LMCacheAscend.Checkpoint.RestoreAttempts
import LMCacheAscend.Checkpoint.SealedManifests
import LMCacheAscend.Checkpoint.SourceSelector
import LMCacheAscend.RemoteFill.Queue
import LMCacheAscend.RemoteFill.PreparedPages
import LMCacheAscend.RemoteFill.ArmedAttempt
import LMCacheAscend.RemoteFill.ArmedWindow
import LMCacheAscend.RemoteFill.RequiredPrefix
import LMCacheAscend.RemoteFill.LatchedSession
import LMCacheAscend.RemoteFill.TransactionClosure
import LMCacheAscend.RemoteFill.FinishCalls
import LMCacheAscend.RemoteFill.JobOrder
import LMCacheAscend.Connector.PingPongRelease
import LMCacheAscend.Storage.ReceiverPut
import LMCacheAscend.Storage.SenderPut
import LMCacheAscend.Storage.PullResources
import LMCacheAscend.Storage.PushPlacement
import LMCacheAscend.Storage.DelayedDone
import LMCacheAscend.LayerwiseFill.PutQueueRuns
import LMCacheAscend.LayerwiseDma.ChainLoad
import LMCacheAscend.LayerwiseDma.RangePlans
import LMCacheAscend.DirectStore.DeferredWindows
import LMCacheAscend.DirectStore.FencedSources
import LMCacheAscend.DirectStore.StoreReports
import LMCacheAscend.SharedSparse.Settlement
import LMCacheAscend.TransferChannel.Handshake
import LMCacheAscend.TransferChannel.PeerHandshake
import LMCacheAscend.Checkpoint.AgreementOrder
import LMCacheAscend.Connector.LoadOwnersRelease
import LMCacheAscend.Connector.StoreFences
import LMCacheAscend.Connector.BankOrder
import LMCacheAscend.LayerwiseFill.FillLeaseRuns
import LMCacheAscend.LayerwiseFill.FrontierRuns
import LMCacheAscend.ManagedMemory.RegistryRuns
import LMCacheAscend.MindSpore.AllocatorRuns
import LMCacheAscend.TransferChannel.RefTrips
import LMCacheAscend.SharedSparse.LayerPageRuns
import LMCacheAscend.Storage.PullBackpressure
import LMCacheAscend.Connector.PeerReads
import LMCacheAscend.Connector.StoreWindows
import LMCacheAscend.Storage.P2PGetOutcomes
import LMCacheAscend.StoreLayer.Alignment
import LMCacheAscend.StoreLayer.Suspensions
import LMCacheAscend.KvTrace.Checksums
import LMCacheAscend.TransferChannel.HcclAgent
import LMCacheAscend.MindSpore.StorageCopies
import LMCacheAscend.MindSpore.MooncakeBuffers
import LMCacheAscend.TokenDatabase.Segments
import LMCacheAscend.TransferParams.UbParams
import LMCacheAscend.Connector.SparseGraphLoad
import LMCacheAscend.Blending.Runs
import LMCacheAscend.SparseAppend.Rollback
