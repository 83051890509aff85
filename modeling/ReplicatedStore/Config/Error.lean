import ReplicatedStore.Partition.Basic
/-!
# Configuration errors

Why a configuration or a list of partition groups is refused.
-/

namespace ReplicatedStore

/-- Why partition groups form no scheme. -/
inductive GroupFault where
  | noGroups
  | noPartitions (group : String)
  | noReplicas (group : String)
deriving DecidableEq, Repr

def GroupFault.message : GroupFault → String
  | noGroups => "At least one partition group is required"
  | noPartitions group => s!"Partition group {group} has no partitions"
  | noReplicas group => s!"Partition group {group} must have at least one replica"

inductive ConfigError where
  | missingKey (key : String)
  | invalidValue (key value : String)
  | malformedPartition (key : String) (cause : PartitionError)
  | invalidGroup (fault : GroupFault)
deriving DecidableEq, Repr

namespace ConfigError

def kind : ConfigError → String
  | missingKey _ => "MissingKey"
  | invalidValue _ _ => "InvalidValue"
  | malformedPartition _ _ => "MalformedPartition"
  | invalidGroup _ => "InvalidGroup"

def message : ConfigError → String
  | missingKey key => s!"Missing configuration key: {key}"
  | invalidValue key value => "Invalid value " ++ Text.quoted value ++ " for key " ++ key
  | malformedPartition key cause => s!"Malformed partition in {key}: {cause.message}"
  | invalidGroup fault => s!"Invalid partition group: {fault.message}"

end ConfigError

end ReplicatedStore
