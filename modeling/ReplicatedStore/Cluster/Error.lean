import ReplicatedStore.Config.Error
import ReplicatedStore.Routing.Rendezvous
import ReplicatedStore.Store.Error
/-!
# Cluster errors

Why an operation on a cluster failed. An operation in which too many partitions failed names them.
-/

namespace ReplicatedStore

/-- The partitions that failed during an operation. -/
structure FailedPartitions where
  failed : List PartitionId
  total : Nat
deriving DecidableEq, Repr

namespace FailedPartitions

def ofList (failed : List PartitionId) (total : Nat) : FailedPartitions := ⟨sortedDistinct failed, total⟩

def size (f : FailedPartitions) : Nat := f.failed.length

def message (f : FailedPartitions) : String :=
  s!"{f.size} of {f.total} partitions failed [" ++ ", ".intercalate (f.failed.map PartitionId.label) ++ "]"

end FailedPartitions

/-- Why an operation on a cluster failed. -/
inductive ClusterError where
  | malformedConfiguration (cause : ConfigError)
  | uploadFailed (partitions : FailedPartitions)
  | downloadFailed (partitions : FailedPartitions)
  | takeFailed (partitions : FailedPartitions)
  | pingFailed (partitions : FailedPartitions)
  | unknownMember (name : String)
  | unknownPartition (partition : Partition)
  | noSenders
  | source (cause : StoreError)
deriving DecidableEq, Repr

namespace ClusterError

def kind : ClusterError → String
  | malformedConfiguration _ => "MalformedConfiguration"
  | uploadFailed _ => "UploadFailed"
  | downloadFailed _ => "DownloadFailed"
  | takeFailed _ => "TakeFailed"
  | pingFailed _ => "PingFailed"
  | unknownMember _ => "NotFound"
  | unknownPartition _ => "NotFound"
  | noSenders => "NoSendersAvailable"
  | source _ => "Source"

def message : ClusterError → String
  | malformedConfiguration cause => s!"Malformed configuration: {cause.message}"
  | uploadFailed partitions => s!"Upload failed: {partitions.message}"
  | downloadFailed partitions => s!"Download failed: {partitions.message}"
  | takeFailed partitions => s!"Take failed: {partitions.message}"
  | pingFailed partitions => s!"Ping failed: {partitions.message}"
  | unknownMember name => "Cannot find partition: " ++ Text.quoted name
  | unknownPartition partition => s!"Partition {partition.print} is not part of the scheme"
  | noSenders => "No senders available"
  | source cause => s!"The upload source failed: {cause.message}"

def failedPartitions : ClusterError → Option FailedPartitions
  | uploadFailed partitions => some partitions
  | downloadFailed partitions => some partitions
  | takeFailed partitions => some partitions
  | pingFailed partitions => some partitions
  | _ => none

end ClusterError

end ReplicatedStore
