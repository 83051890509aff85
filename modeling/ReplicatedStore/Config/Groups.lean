import ReplicatedStore.Config.Source
import ReplicatedStore.Routing.Scheme
/-!
# Configured partition groups

The groups that a source describes by the keys `partitionGroup.<name>.<setting>`. The setting `ids`
lists the partitions; `replicas`, `repartition` and `active` have defaults.
-/

namespace ReplicatedStore.ConfigSource

open SocketAddress (Resolver)

def groupBeginning : String := "partitionGroup."

def groupKey (name setting : String) : String := groupBeginning ++ name ++ "." ++ setting

def groupOfKey? (key : String) : Option String := do
  let rest ← Text.after? groupBeginning.toList key.toList
  let (name, _) ← Text.splitLast? '.' rest
  return String.ofList name

def groupNames (source : ConfigSource) : List String :=
  sortedDistinct (source.values.keys.filterMap groupOfKey?)

def readPartitions (resolver : Resolver) (key value : String) : Except ConfigError (List Partition) :=
  let items := (Text.split ',' value.toList).map Text.trimmed
  (items.filter fun item => !item.isEmpty).mapM fun item =>
    (Partition.parse resolver (String.ofList item)).mapError (.malformedPartition key)

def group (source : ConfigSource) (resolver : Resolver) (name : String) :
    Except ConfigError PartitionGroup := do
  let idsKey := groupKey name "ids"
  let some ids := source.get? idsKey | throw (.missingKey idsKey)
  let partitions ← readPartitions resolver idsKey ids
  if partitions.isEmpty then throw (.invalidGroup (.noPartitions name))
  let replicas ← source.getOr (readUnsigned 64) (groupKey name "replicas") 1
  if replicas = 0 then throw (.invalidValue (groupKey name "replicas") "0")
  let repartition ← source.getOr readBool (groupKey name "repartition") false
  let active ← source.getOr readBool (groupKey name "active") true
  return (PartitionGroup.ofList partitions).withReplicas replicas |>.withRepartition repartition
    |>.withActive active

def groups (source : ConfigSource) (resolver : Resolver) : Except ConfigError (List PartitionGroup) :=
  if source.groupNames.isEmpty then .error (.missingKey (groupBeginning ++ "<name>.ids"))
  else source.groupNames.mapM (source.group resolver)

/-- The scheme of the configured groups, in which partitions are ranked by their whole identity. -/
def scheme {γ : Type} (source : ConfigSource) (resolver : Resolver) (client : Partition → Option γ) :
    Except ConfigError (PartitionScheme γ) := do
  PartitionScheme.create (← source.groups resolver) client PartitionId.identityHash

end ReplicatedStore.ConfigSource
