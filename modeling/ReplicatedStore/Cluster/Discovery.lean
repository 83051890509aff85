import ReplicatedStore.Cluster.Probe
/-!
# Discovery

A cluster starts with the first scheme that it discovers, and replaces its scheme whenever another is
published. A watcher sees only the latest scheme, so schemes published between two looks are skipped.
-/

namespace ReplicatedStore

structure Discovery (γ : Type) where
  latest : Option (PartitionScheme γ)
  isNew : Bool

namespace Discovery

variable {γ : Type}

def silent : Discovery γ := ⟨none, false⟩

def publish (scheme : PartitionScheme γ) (_ : Discovery γ) : Discovery γ := ⟨some scheme, true⟩

def ofScheme (scheme : PartitionScheme γ) : Discovery γ := silent.publish scheme

/-- The scheme that the watcher has yet to see, if there is one, and the source once it has. -/
def next (discovery : Discovery γ) : Option (PartitionScheme γ) × Discovery γ :=
  (if discovery.isNew then discovery.latest else none, { discovery with isNew := false })

end Discovery

namespace Cluster

variable {μ ρ κ σ : Type}

/-- Starts a cluster with the first scheme discovered. All partitions are pinged once; those that do not
answer start out dead. -/
def start (discovery : Discovery (Store μ ρ κ σ)) (function : MergeFunction σ)
    (options : ClusterOptions) (world : μ) :
    Except ClusterError (Cluster μ ρ κ σ × Discovery (Store μ ρ κ σ)) :=
  match discovery.next with
  | (none, _) => .error .noSenders
  | (some scheme, discovery) =>
    let cluster : Cluster μ ρ κ σ := ⟨.start scheme .zero, function, options, world⟩
    .ok (cluster.probe.2, discovery)

def install (scheme : PartitionScheme (Store μ ρ κ σ)) (cluster : Cluster μ ρ κ σ) :
    Cluster μ ρ κ σ :=
  { cluster with membership := cluster.membership.install scheme }.probe.2

def watch (discovery : Discovery (Store μ ρ κ σ)) (cluster : Cluster μ ρ κ σ) :
    Discovery (Store μ ρ κ σ) × Cluster μ ρ κ σ :=
  match discovery.next with
  | (none, discovery) => (discovery, cluster)
  | (some scheme, discovery) => (discovery, cluster.install scheme)

end Cluster

end ReplicatedStore
