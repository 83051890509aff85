import ReplicatedStore.Proofs.Entry.Join
/-!
# Lists that cover others

Some entries cover others if each of those is absorbed by one of them. The join of some entries is the least
list in key order that covers them, so it may be taken of any entries that cover each other: whether a part is
there once, several times or in a join with others makes no difference.
-/

namespace ReplicatedStore.Entry

variable {κ σ : Type} {f : MergeFunction σ}

def Covers (f : MergeFunction σ) (entries parts : List (Entry κ σ)) : Prop :=
  ∀ part ∈ parts, ∃ entry ∈ entries, entry.Absorbs f part

namespace Covers

variable {entries parts more : List (Entry κ σ)}

theorem trans (hf : f.Semilattice) (h : Covers f entries parts) (h' : Covers f parts more) :
    Covers f entries more := by
  intro other hmem
  obtain ⟨part, hpart, hother⟩ := h' other hmem
  obtain ⟨entry, hentry, habsorbs⟩ := h part hpart
  exact ⟨entry, hentry, habsorbs.trans hf hother⟩

variable [Ord κ] [Std.LawfulEqOrd κ]

theorem lookup? (h : Covers f entries parts) (hascending : Ascending entries) {part : Entry κ σ}
    (hmem : part ∈ parts) : ∃ entry, Entry.lookup? part.key entries = some entry ∧ entry.Absorbs f part := by
  obtain ⟨entry, hentry, habsorbs⟩ := h part hmem
  refine ⟨entry, ?_, habsorbs⟩
  rw [← habsorbs.1]
  exact hascending.lookup?_of_mem hentry

private theorem lookup?_eq (hf : f.Semilattice) {first second : List (Entry κ σ)} (hfirst : Ascending first)
    (hsecond : Ascending second) (h : Covers f first second) (h' : Covers f second first) {key : κ}
    {entry : Entry κ σ} (hentry : Entry.lookup? key first = some entry) :
    Entry.lookup? key second = some entry := by
  obtain ⟨rfl, hmem⟩ := lookup?_eq_some hentry
  obtain ⟨other, hother, habsorbs⟩ := h'.lookup? hsecond hmem
  obtain ⟨hkey, hfound⟩ := lookup?_eq_some hother
  obtain ⟨back, hback, hreturns⟩ := h.lookup? hfirst hfound
  rw [hkey, hentry, Option.some_inj] at hback
  subst hback
  rw [hother, hreturns.antisymm hf habsorbs]

theorem antisymm [Std.TransOrd κ] (hf : f.Semilattice) {first second : List (Entry κ σ)}
    (hfirst : Ascending first) (hsecond : Ascending second) (h : Covers f first second)
    (h' : Covers f second first) : first = second := by
  apply hfirst.eq_of_lookup? hsecond
  intro key
  apply Option.ext
  intro entry
  exact ⟨lookup?_eq hf hfirst hsecond h h', lookup?_eq hf hsecond hfirst h' h⟩

end Covers

namespace Joins

variable [Ord κ] [Std.LawfulEqOrd κ] {entries parts upper : List (Entry κ σ)}

theorem covers (hf : f.Semilattice) (h : Joins f parts entries) : Covers f entries parts := by
  intro part hmem
  have hpart : part ∈ parts.filter (hasKey part.key) := List.mem_filter.mpr ⟨hmem, hasKey_iff.mpr rfl⟩
  cases hjoin : joined f (parts.filter (hasKey part.key)) with
  | none =>
    rw [(joined_eq_none f).mp hjoin] at hpart
    contradiction
  | some entry =>
    obtain ⟨habsorbs, -⟩ := absorbs_joined hf (fun other hother => hasKey_iff.mp (List.mem_filter.mp hother).2) hjoin
    refine ⟨entry, ?_, habsorbs part hpart⟩
    exact (lookup?_eq_some ((h.lookup part.key).trans hjoin)).2

theorem least (hf : f.Semilattice) (h : Joins f parts entries) (hascending : Ascending upper)
    (hcovers : Covers f upper parts) : Covers f upper entries := by
  intro entry hmem
  have hjoin := (h.lookup entry.key).symm.trans (h.ascending.lookup?_of_mem hmem)
  obtain ⟨-, hleast⟩ := absorbs_joined hf (fun other hother => hasKey_iff.mp (List.mem_filter.mp hother).2) hjoin
  cases hparts : parts.filter (hasKey entry.key) with
  | nil =>
    rw [hparts] at hjoin
    contradiction
  | cons first rest =>
    have hfirst : first ∈ parts.filter (hasKey entry.key) := hparts ▸ List.mem_cons_self ..
    obtain ⟨hpart, hkey⟩ := List.mem_filter.mp hfirst
    obtain ⟨found, hfound, -⟩ := hcovers.lookup? hascending hpart
    refine ⟨found, (lookup?_eq_some hfound).2, hleast found fun other hother => ?_⟩
    obtain ⟨hother, hsame⟩ := List.mem_filter.mp hother
    obtain ⟨same, hlookup, habsorbs⟩ := hcovers.lookup? hascending hother
    rw [hasKey_iff.mp hsame, ← hasKey_iff.mp hkey, hfound, Option.some_inj] at hlookup
    exact hlookup ▸ habsorbs

/-- Two joins are equal if each covers the parts of the other. -/
theorem eq_of_covers [Std.TransOrd κ] (hf : f.Semilattice) {others merged : List (Entry κ σ)}
    (h : Joins f parts entries) (h' : Joins f others merged) (hforth : Covers f entries others)
    (hback : Covers f merged parts) : entries = merged :=
  Covers.antisymm hf h.ascending h'.ascending (h'.least hf h.ascending hforth) (h.least hf h'.ascending hback)

end Joins

end ReplicatedStore.Entry
