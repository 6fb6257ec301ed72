import FractalBits.OvrMap.Load
import FractalBits.OvrMap.StagedWrites
import FractalBits.VolumeGroup.EcAgreement
import FractalBits.VolumeGroup.EcRead
import FractalBits.VolumeGroup.Absence
import FractalBits.VolumeGroup.CircuitBreaker
import FractalBits.VolumeGroup.Deletion
import FractalBits.Streaming.Complete
import FractalBits.Streaming.Trailers
import FractalBits.Streaming.Encoder
import FractalBits.Gateway.SignedPut
import FractalBits.Gateway.ChunkedPut
import FractalBits.Gateway.ChecksumPaths
import FractalBits.Gateway.RequestSigner
import FractalBits.Objects.Sweep
import FractalBits.Objects.Retries
import FractalBits.Objects.AbortRace
import FractalBits.Objects.PartRace
import FractalBits.Objects.Snapshot
import FractalBits.Objects.DeletionTask
import FractalBits.Objects.Teardown
import FractalBits.Objects.SweepOrder
import FractalBits.Objects.StartAfter
import FractalBits.Objects.PartNumber
import FractalBits.Objects.BatchDelete
import FractalBits.Objects.ListParts
import FractalBits.Objects.PartKeys
import FractalBits.Filesystem.Posix
import FractalBits.Filesystem.Generations
import FractalBits.Drives.Slots
import FractalBits.Rpc.Pending
import FractalBits.Management.Signature
import FractalBits.Client.Transfer
import FractalBits.Objects.Endpoints
