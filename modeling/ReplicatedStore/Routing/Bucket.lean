/-!
# Buckets

Key hashes fall into a fixed number of buckets; all keys of a bucket are routed alike.
-/

namespace ReplicatedStore

def bucketCount : Nat := 1024

def wordSize : Nat := 64

abbrev Bucket := Fin bucketCount

namespace Bucket

def ofHash (hash : UInt32) : Bucket :=
  ⟨hash.toNat % bucketCount, Nat.mod_lt _ (by decide)⟩

def ofNat? (n : Nat) : Option Bucket := if h : n < bucketCount then some ⟨n, h⟩ else none

def first : Bucket := ⟨0, by decide⟩

def all : List Bucket := List.finRange bucketCount

def word (bucket : Bucket) : Fin (bucketCount / wordSize) :=
  ⟨bucket / wordSize, Nat.div_lt_div_of_lt_of_dvd (by decide) bucket.isLt⟩

def bit (bucket : Bucket) : Nat := bucket % wordSize

theorem bit_lt (bucket : Bucket) : bucket.bit < wordSize := Nat.mod_lt _ (by decide)

def ofPlace (word : Fin (bucketCount / wordSize)) (bit : Fin wordSize) : Bucket :=
  ⟨wordSize * word + bit, by have := word.isLt; have := bit.isLt; simp only [bucketCount, wordSize] at *; omega⟩

@[simp] theorem word_ofPlace (word : Fin (bucketCount / wordSize)) (bit : Fin wordSize) :
    (ofPlace word bit).word = word := by
  apply Fin.ext
  have hbit := bit.isLt
  simp only [Bucket.word, ofPlace, wordSize] at *
  omega

@[simp] theorem bit_ofPlace (word : Fin (bucketCount / wordSize)) (bit : Fin wordSize) :
    (ofPlace word bit).bit = bit := by
  have hbit := bit.isLt
  simp only [Bucket.bit, ofPlace, wordSize] at *
  omega

theorem eq_iff (a b : Bucket) : a = b ↔ a.word = b.word ∧ a.bit = b.bit := by
  simp only [word, bit, Fin.ext_iff]
  constructor
  · intro h
    rw [h]
    exact ⟨rfl, rfl⟩
  · rintro ⟨hword, hbit⟩
    rw [← Nat.div_add_mod a.val wordSize, hword, hbit, Nat.div_add_mod]

end Bucket

/-- A set of buckets, each a bit of one of its words. -/
structure BucketSet where
  words : Vector (BitVec wordSize) (bucketCount / wordSize)
deriving DecidableEq

namespace BucketSet

def empty : BucketSet := ⟨Vector.replicate _ 0⟩

def insert (set : BucketSet) (bucket : Bucket) : BucketSet :=
  ⟨set.words.set bucket.word (set.words[bucket.word] ||| BitVec.twoPow wordSize bucket.bit)⟩

def contains (set : BucketSet) (bucket : Bucket) : Bool := set.words[bucket.word].getLsbD bucket.bit

def isEmpty (set : BucketSet) : Bool := set.words.all (· == 0)

def toList (set : BucketSet) : List Bucket := Bucket.all.filter set.contains

def ofList (buckets : List Bucket) : BucketSet := buckets.foldl insert empty

@[simp] theorem contains_empty (bucket : Bucket) : empty.contains bucket = false := by
  simp [contains, empty]

@[simp] theorem contains_insert (set : BucketSet) (added bucket : Bucket) :
    (set.insert added).contains bucket = (set.contains bucket || decide (bucket = added)) := by
  by_cases hword : added.word = bucket.word
  · have hbit : decide (added.bit = bucket.bit) = decide (bucket = added) := by
      rw [decide_eq_decide, Bucket.eq_iff bucket, hword, eq_comm]
      exact (and_iff_right rfl).symm
    simp [contains, insert, hword, added.bit_lt, hbit]
  · have hne : bucket ≠ added := fun h => hword (congrArg Bucket.word h.symm)
    have hval : added.word.val ≠ bucket.word.val := fun h => hword (Fin.ext h)
    simp [contains, insert, hval, hne]

private theorem contains_foldl_insert (set : BucketSet) (added : List Bucket) (bucket : Bucket) :
    (added.foldl insert set).contains bucket = true ↔ set.contains bucket = true ∨ bucket ∈ added := by
  induction added generalizing set with
  | nil => simp
  | cons first rest ih => simp [ih, or_assoc]

@[simp] theorem contains_ofList (inserted : List Bucket) (bucket : Bucket) :
    (ofList inserted).contains bucket = true ↔ bucket ∈ inserted := by
  simp [ofList, contains_foldl_insert]

/-- A set is empty if no bucket is in it: every bit of a word is that of a bucket. -/
theorem isEmpty_iff {set : BucketSet} : set.isEmpty = true ↔ ∀ bucket, set.contains bucket = false := by
  simp only [isEmpty, Vector.all_eq_true, beq_iff_eq]
  constructor
  · intro hzero bucket
    simp [contains, hzero]
  · intro hnone i hi
    apply BitVec.eq_of_getLsbD_eq
    intro j hj
    let bucket := Bucket.ofPlace ⟨i, hi⟩ ⟨j, hj⟩
    have hbit := hnone bucket
    simpa [contains, bucket] using hbit

end BucketSet

end ReplicatedStore
