import AgentArchivist.Protocol.EpisodeDerivation
import AgentArchivist.Protocol.ReconstructionInverts
import AgentArchivist.Storage.CommitOrder
import AgentArchivist.Storage.ManifestBytes
import AgentArchivist.Client.Watermark
import AgentArchivist.Client.UploadMachine
import AgentArchivist.Adapter.FileGeneration
import AgentArchivist.Adapter.EventStream
import AgentArchivist.Auth.TrustCache
import AgentArchivist.Protocol.ArtifactRoundTrip
import AgentArchivist.Adapter.EphemeralFlush
import AgentArchivist.Server.TransportVerdict
import AgentArchivist.Server.EvidenceVerdict
import AgentArchivist.Server.CommitConsistency
import AgentArchivist.Protocol.ReconstructionOrder
import AgentArchivist.Protocol.Sha256Standard
import AgentArchivist.Storage.S3RawWrite
import AgentArchivist.Storage.BlobAtomic
import AgentArchivist.Auth.RevokedAttempts
import AgentArchivist.Client.Pressure
import AgentArchivist.Auth.ReceiptSchedule
import AgentArchivist.Server.TransportBounds
