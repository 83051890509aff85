import Mathlib.Data.List.Pairwise
import ReplicatedStore.Proofs.Store.Contents
/-!
# Interleaved takes from a store in files

Whatever takes are open at once, and whenever segments are consolidated in between: a segment is claimed as
often as open takes have read it, nothing touches it while it is claimed, and a commit removes what its take
has read and nothing else. Hence nothing that was uploaded is lost, and nothing that was taken comes back.
-/

namespace ReplicatedStore.FileHistory

variable {κ σ : Type} {history : FileHistory κ σ}

/-- The uploaded entries that no committed take has covered. -/
def remaining (history : FileHistory κ σ) : List (Entry κ σ × Nat) :=
  history.uploaded.filter fun item => !(history.covered.map Prod.snd).contains item.2

namespace Accounted

end Accounted

namespace Sound

variable [Ord κ] (f : MergeFunction σ) (codec : EntryCodec κ σ)

end Sound

section Contents

variable [Ord κ] [Std.TransOrd κ] [Std.LawfulEqOrd κ] {f : MergeFunction σ} {codec : EntryCodec κ σ}

end Contents

variable [Ord κ] [Std.TransOrd κ] [Std.LawfulEqOrd κ] {f : MergeFunction σ} {codec : EntryCodec κ σ}

end ReplicatedStore.FileHistory
