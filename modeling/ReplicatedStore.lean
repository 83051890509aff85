import ReplicatedStore.Cluster.Discovery
import ReplicatedStore.Cluster.Fleet
import ReplicatedStore.Cluster.Read
import ReplicatedStore.Cluster.Tasks
import ReplicatedStore.Cluster.Upload
import ReplicatedStore.Codec.Archived
import ReplicatedStore.Codec.Flat
import ReplicatedStore.Config.Groups
import ReplicatedStore.Proofs.Routing.Scheme
import ReplicatedStore.Reading.Named
import ReplicatedStore.Session.EntryStream
import ReplicatedStore.Session.Remote
import ReplicatedStore.Store.File
import ReplicatedStore.Store.Node
import ReplicatedStore.Bytes.Hex
import ReplicatedStore.Proofs.Cluster.Sessions
import ReplicatedStore.Proofs.Cluster.Durability
import ReplicatedStore.Proofs.Entry.Ascending
import ReplicatedStore.Proofs.Store.Map
import ReplicatedStore.Proofs.Cluster.FanIn
import ReplicatedStore.Proofs.Cluster.Reading
import ReplicatedStore.Proofs.Entry.Join
import ReplicatedStore.Proofs.Entry.Gathering
import ReplicatedStore.Proofs.Store.Growth
import ReplicatedStore.Proofs.Cluster.Replicas
import ReplicatedStore.Proofs.Cluster.Opening
import ReplicatedStore.Proofs.Cluster.Evolution
import ReplicatedStore.Proofs.Cluster.ReadAfterWrite
import ReplicatedStore.Proofs.Cluster.Fleet
import ReplicatedStore.Proofs.Cluster.Convergence
import ReplicatedStore.Proofs.Store.Takes
import ReplicatedStore.Proofs.Store.MapHistory
import ReplicatedStore.Proofs.Cluster.Completion
import ReplicatedStore.Proofs.Cluster.Takes
import ReplicatedStore.Proofs.Store.Runs
import ReplicatedStore.Proofs.Store.Segment
import ReplicatedStore.Proofs.Store.Folder
import ReplicatedStore.Proofs.Store.File
import ReplicatedStore.Proofs.Store.FileHistory
import ReplicatedStore.Proofs.Store.Contents
import ReplicatedStore.Proofs.Store.Interleaving
import ReplicatedStore.Proofs.Store.Refinement
import ReplicatedStore.Proofs.Archive.RoundTrip
import ReplicatedStore.Proofs.Wire.Message
import ReplicatedStore.Proofs.Session.EntryStream
import ReplicatedStore.Proofs.Session.Partition
import ReplicatedStore.Proofs.Session.Sessions
import ReplicatedStore.Proofs.Session.Batch
import ReplicatedStore.Proofs.Session.Remote
import ReplicatedStore.Proofs.Routing.Routes
import ReplicatedStore.Proofs.Cluster.Tasks
import ReplicatedStore.Proofs.Cluster.Replay
import ReplicatedStore.Proofs.Session.Unfinished
import ReplicatedStore.Proofs.Cluster.Unfinished
import ReplicatedStore.Proofs.Cluster.Membership
import ReplicatedStore.Proofs.Wire.Payload
import ReplicatedStore.Proofs.Cluster.Verdict
import ReplicatedStore.Proofs.Store.Recovery
import ReplicatedStore.Proofs.Routing.Quorums
import ReplicatedStore.Proofs.Store.Records
import ReplicatedStore.Proofs.Store.Arrival
import ReplicatedStore.Proofs.Session.Exchange
import ReplicatedStore.Proofs.Session.Isolation
import ReplicatedStore.Proofs.Routing.Overlap
import ReplicatedStore.Proofs.Cluster.Repartition
import ReplicatedStore.Proofs.Cluster.Incremental
import ReplicatedStore.Proofs.Cluster.Probing
import ReplicatedStore.Proofs.Cluster.Aggregates
import ReplicatedStore.Proofs.Cluster.Failures
import ReplicatedStore.Proofs.Cluster.ReadFailures
import ReplicatedStore.Proofs.Cluster.Account
import ReplicatedStore.Proofs.Session.BatchLimit
import ReplicatedStore.Proofs.Entry.Copies
import ReplicatedStore.Proofs.Routing.Pairing
import ReplicatedStore.Proofs.Partition.RoundTrip
import ReplicatedStore.Proofs.Config.RoundTrip
