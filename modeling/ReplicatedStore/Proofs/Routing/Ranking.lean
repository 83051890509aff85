import Mathlib.Data.List.Nodup
import ReplicatedStore.Proofs.Routing.Rendezvous
/-!
# Ranks of members

In a bucket one member ranks above another by the hash of member and bucket, and by its number where the
hashes are equal. Members with distinct numbers are ranked in one way only, so ranking them commutes with
dropping some and with numbering them anew in the same order.
-/

namespace ReplicatedStore

namespace RankedMember

variable {π : Type}

def rank (bucket : Nat) (m : RankedMember π) : UInt32 × Nat :=
  (combinedHash m.hash (UInt32.ofNat bucket), m.index)

/-- The first member has the greater hash in the bucket, or the smaller number if the hashes are equal. -/
def Outranks (bucket : Nat) (a b : RankedMember π) : Prop :=
  combinedHash b.hash (UInt32.ofNat bucket) < combinedHash a.hash (UInt32.ofNat bucket) ∨
    combinedHash a.hash (UInt32.ofNat bucket) = combinedHash b.hash (UInt32.ofNat bucket) ∧
      a.index < b.index

theorem not_outranks {h k : UInt32} {before after : Prop} (hties : before → ¬ after)
    (hab : k < h ∨ h = k ∧ before) : ¬ (h < k ∨ k = h ∧ after) := by
  intro hba
  rcases hab with hlt | ⟨heq, hbefore⟩
  · rcases hba with hgt | ⟨heq, -⟩
    · exact UInt32.lt_asymm hlt hgt
    · rw [heq] at hlt
      exact UInt32.lt_irrefl _ hlt
  · rcases hba with hgt | ⟨-, hafter⟩
    · rw [heq] at hgt
      exact UInt32.lt_irrefl _ hgt
    · exact hties hbefore hafter

theorem Outranks.asymm {bucket : Nat} {a b : RankedMember π} (hab : a.Outranks bucket b) :
    ¬ b.Outranks bucket a :=
  not_outranks Nat.lt_asymm hab

def ranked (bucket : Nat) (members : List (RankedMember π)) : List (RankedMember π) :=
  members.mergeSort fun a b => Rendezvous.ranksBefore (a.rank bucket) (b.rank bucket)

theorem ranked_perm (bucket : Nat) (members : List (RankedMember π)) :
    (ranked bucket members).Perm members :=
  List.mergeSort_perm members _

theorem mem_ranked {bucket : Nat} {members : List (RankedMember π)} {m : RankedMember π} :
    m ∈ ranked bucket members ↔ m ∈ members :=
  (ranked_perm bucket members).mem_iff

private theorem ranksBefore_iff (a b : UInt32 × Nat) :
    Rendezvous.ranksBefore a b = true ↔ b.1 < a.1 ∨ a.1 = b.1 ∧ a.2 ≤ b.2 := by
  simp only [Rendezvous.ranksBefore, Bool.or_eq_true, Bool.and_eq_true, decide_eq_true_eq, beq_iff_eq]

private theorem ranksBefore_trans (a b c : UInt32 × Nat) (hab : Rendezvous.ranksBefore a b = true)
    (hbc : Rendezvous.ranksBefore b c = true) : Rendezvous.ranksBefore a c = true := by
  rw [ranksBefore_iff] at hab hbc ⊢
  rcases hab with hab | ⟨hab, hle⟩
  · rcases hbc with hbc | ⟨hbc, -⟩
    · exact .inl (UInt32.lt_trans hbc hab)
    · exact .inl (hbc ▸ hab)
  · rcases hbc with hbc | ⟨hbc, hle'⟩
    · exact .inl (hab ▸ hbc)
    · exact .inr ⟨hab.trans hbc, Nat.le_trans hle hle'⟩

private theorem ranksBefore_total (a b : UInt32 × Nat) :
    (Rendezvous.ranksBefore a b || Rendezvous.ranksBefore b a) = true := by
  rw [Bool.or_eq_true, ranksBefore_iff, ranksBefore_iff]
  by_cases hlt : a.1 < b.1
  · exact .inr (.inl hlt)
  by_cases hgt : b.1 < a.1
  · exact .inl (.inl hgt)
  have heq : a.1 = b.1 := UInt32.le_antisymm (UInt32.not_lt.mp hgt) (UInt32.not_lt.mp hlt)
  rcases Nat.le_total a.2 b.2 with hle | hle
  · exact .inl (.inr ⟨heq, hle⟩)
  · exact .inr (.inr ⟨heq.symm, hle⟩)

/-- Members with distinct numbers are ranked without ties. -/
theorem ranked_outranks (bucket : Nat) {members : List (RankedMember π)}
    (h : (members.map index).Nodup) : (ranked bucket members).Pairwise (Outranks bucket) := by
  have hsorted : (ranked bucket members).Pairwise fun a b =>
      Rendezvous.ranksBefore (a.rank bucket) (b.rank bucket) = true :=
    List.pairwise_mergeSort
      (fun a b c => ranksBefore_trans (a.rank bucket) (b.rank bucket) (c.rank bucket))
      (fun a b => ranksBefore_total (a.rank bucket) (b.rank bucket)) members
  have hdistinct : (ranked bucket members).Pairwise fun a b => a.index ≠ b.index :=
    List.pairwise_map.mp (((ranked_perm bucket members).map index).symm.nodup h)
  refine (hsorted.and hdistinct).imp ?_
  rintro a b ⟨hbefore, hne⟩
  rcases (ranksBefore_iff _ _).mp hbefore with hlt | ⟨heq, hle⟩
  · exact .inl hlt
  · exact .inr ⟨heq, Nat.lt_of_le_of_ne hle hne⟩

/-- There is one ranking of members. -/
theorem eq_of_outranks {bucket : Nat} {members others : List (RankedMember π)}
    (hmembers : members.Pairwise (Outranks bucket)) (hothers : others.Pairwise (Outranks bucket))
    (hperm : members.Perm others) : members = others :=
  hperm.eq_of_pairwise (fun _ _ _ _ hab hba => absurd hba hab.asymm) hmembers hothers

/-- Dropping members leaves the ranks of the others as they are. -/
theorem ranked_filter (bucket : Nat) {members : List (RankedMember π)} (h : (members.map index).Nodup)
    (keep : RankedMember π → Bool) :
    (ranked bucket members).filter keep = ranked bucket (members.filter keep) := by
  have hkept : ((members.filter keep).map index).Nodup := h.sublist (List.filter_sublist.map index)
  refine eq_of_outranks ((ranked_outranks bucket h).filter keep) (ranked_outranks bucket hkept) ?_
  exact ((ranked_perm bucket members).filter keep).trans (ranked_perm bucket _).symm

theorem ranked_map (bucket : Nat) (members : List (RankedMember π)) (rename : Nat → Nat)
    (h : ∀ a ∈ members, ∀ b ∈ members, rename a.index ≤ rename b.index ↔ a.index ≤ b.index) :
    (ranked bucket members).map (fun m => { m with index := rename m.index }) =
      ranked bucket (members.map fun m => { m with index := rename m.index }) := by
  refine List.map_mergeSort fun a ha b hb => ?_
  rw [Bool.eq_iff_iff, ranksBefore_iff, ranksBefore_iff]
  exact or_congr_right (and_congr_right fun _ => (h a ha b hb).symm)

end RankedMember

namespace Rendezvous

variable {π : Type}

theorem ranking_eq (members : List (RankedMember π)) (bucket : Nat) :
    ranking members bucket = (RankedMember.ranked bucket members).map RankedMember.index := by
  have hrank : (RankedMember.ranked bucket members).map (RankedMember.rank bucket) =
      (members.map (RankedMember.rank bucket)).mergeSort ranksBefore :=
    List.map_mergeSort fun _ _ _ _ => rfl
  change ((members.map (RankedMember.rank bucket)).mergeSort ranksBefore).map Prod.snd = _
  rw [← hrank, List.map_map]
  rfl

end Rendezvous

end ReplicatedStore
