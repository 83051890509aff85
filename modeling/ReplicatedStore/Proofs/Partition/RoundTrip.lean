import ReplicatedStore.Partition.Basic
import ReplicatedStore.Proofs.Partition.Address
import ReplicatedStore.Proofs.Text.Separators
/-!
# Reading partitions back

A partition is read back from its printed text if neither its group nor its id has a separator. If one has,
the text has too many segments, so no printed partition is read as another one.
-/

namespace ReplicatedStore

namespace PartitionId

def separators (partition : PartitionId) : Nat :=
  partition.group.toList.count '|' + partition.id.toList.count '|'

theorem separators_eq_zero {partition : PartitionId} :
    partition.separators = 0 ↔ '|' ∉ partition.group.toList ∧ '|' ∉ partition.id.toList := by
  simp [separators, List.count_eq_zero]

end PartitionId

namespace Partition

open SocketAddress (Resolver)

variable {resolver : Resolver}

theorem separator_not_mem_printAddress (address : Option SocketAddress) :
    '|' ∉ (printAddress address).toList := by
  cases address with
  | none => simp [printAddress]
  | some address => exact address.not_mem_print rfl (by decide)

theorem parseAddress_printAddress (resolver : Resolver) (address : Option SocketAddress) :
    parseAddress resolver (printAddress address).toList = .ok address := by
  cases address with
  | none => rfl
  | some address =>
    have htrimmed : Text.trimmed address.print.toList = address.print.toList :=
      Text.trimmed_eq_self_of_forall fun c hc => SocketAddress.isBlank_of_mem_print hc
    have hne : address.print.toList.isEmpty = false := by
      simpa using address.print_ne_nil
    simp [parseAddress, printAddress, htrimmed, hne, SocketAddress.read_print]

theorem toList_print (p : Partition) : p.print.toList =
    p.identity.group.toList ++ '|' :: (p.identity.id.toList ++ '|' ::
      ((printAddress p.storage).toList ++ '|' :: (printAddress p.control).toList)) := by
  simp [print, PartitionId.name]

theorem count_separators_print (p : Partition) : p.print.toList.count '|' = p.identity.separators + 3 := by
  have haddress : ∀ address, (printAddress address).toList.count '|' = 0 := by
    intro address
    rw [List.count_eq_zero]
    exact separator_not_mem_printAddress address
  simp only [toList_print, List.count_append, List.count_cons_self, haddress, PartitionId.separators]
  omega

theorem parse_of_count {text : String} (h : 3 < text.toList.count '|') :
    parse resolver text = .error (.tooManySegments (text.toList.count '|' + 1)) := by
  have hlength := Text.length_split '|' text.toList
  rw [parse]
  split
  next hpieces => simp [hpieces] at hlength
  next hpieces =>
    simp [hpieces] at hlength
    omega
  next group id addresses hpieces =>
    rw [hpieces, List.length_cons, List.length_cons] at hlength
    rw [if_pos (by omega), hlength]

theorem separators_of_parse {text : String} {p : Partition} (h : parse resolver text = .ok p) :
    p.identity.separators = 0 := by
  have hpiece : ∀ piece ∈ Text.split '|' text.toList, '|' ∉ (String.ofList piece).toList := by
    intro piece hmem
    rw [String.toList_ofList]
    exact Text.not_mem_of_mem_split hmem
  rw [parse] at h
  split at h
  next => contradiction
  next => contradiction
  next group id addresses hpieces =>
    rw [hpieces] at hpiece
    split at h
    next => contradiction
    next =>
      cases hstorage : parseAddress resolver (addresses[0]?.getD []) with
      | error cause => simp [hstorage, bind, Except.bind] at h
      | ok storage =>
        cases hcontrol : parseAddress resolver (addresses[1]?.getD []) with
        | error cause => simp [hstorage, hcontrol, bind, Except.bind] at h
        | ok control =>
          simp only [hstorage, hcontrol, bind, Except.bind, pure, Except.pure, Except.ok.injEq] at h
          rw [← h, PartitionId.separators_eq_zero]
          exact ⟨hpiece group (by simp), hpiece id (by simp)⟩

theorem parse_print_of_separators {p : Partition} (h : p.identity.separators = 0) :
    parse resolver p.print = .ok p := by
  obtain ⟨hgroup, hid⟩ := PartitionId.separators_eq_zero.mp h
  have hpieces : Text.split '|' p.print.toList = [p.identity.group.toList, p.identity.id.toList,
      (printAddress p.storage).toList, (printAddress p.control).toList] := by
    simp [toList_print, Text.split_append, Text.split_of_not_mem, hgroup, hid, separator_not_mem_printAddress]
  rw [parse, hpieces]
  simp [parseAddress_printAddress, bind, Except.bind, pure, Except.pure]

/-- A printed partition is read back exactly if its group and its id have no separator, and else each of these
makes a segment too many. So it is never read as another partition. Whatever was read is read back from its own
text, in whichever form it was given and whatever its hosts stood for then. -/
theorem parse_print (resolver : Resolver) (p : Partition) :
    parse resolver p.print =
        (if '|' ∈ p.identity.group.toList ∨ '|' ∈ p.identity.id.toList then
          .error (.tooManySegments (4 + p.identity.separators))
        else .ok p) ∧
      (∀ q, parse resolver p.print = .ok q → q = p) ∧
      ∀ earlier text, parse earlier text = .ok p → parse resolver p.print = .ok p := by
  have hprinted : parse resolver p.print =
      if '|' ∈ p.identity.group.toList ∨ '|' ∈ p.identity.id.toList then
        .error (.tooManySegments (4 + p.identity.separators)) else .ok p := by
    split
    next hseparator =>
      have hsome : p.identity.separators ≠ 0 := by
        intro hzero
        rw [PartitionId.separators_eq_zero, ← not_or] at hzero
        contradiction
      rw [parse_of_count (by rw [count_separators_print]; omega), count_separators_print]
      congr 2
      omega
    next hnone => exact parse_print_of_separators (PartitionId.separators_eq_zero.mpr (not_or.mp hnone))
  refine ⟨hprinted, ?_, fun earlier text htext => parse_print_of_separators (separators_of_parse htext)⟩
  intro q hq
  rw [hprinted] at hq
  split at hq
  next => contradiction
  next => exact (Except.ok.inj hq).symm

/-- One host is looked up, where its second address is preferred, and one is a shortened number. The text of what
was read needs no lookup. -/
theorem parse_print_of_host_names :
    let names : Resolver := fun host =>
      if host = "localhost" then .ok [.v6 #v[0, 0, 0, 0, 0, 0, 0, 1] 0, .v4 0x7F000001] else .ok []
    let offline : Resolver := fun _ => .error "Temporary failure in name resolution"
    let p : Partition := ⟨⟨"g", "a"⟩, some (.v4 0x7F000001 9000), some (.v4 0x0A000001 80)⟩
    parse names.numeric "g|a| localhost:9000 |10.1:80" = .ok p ∧ parse offline p.print = .ok p := by
  refine ⟨?read, (parse_print _ _).2.2 _ _ ?read⟩
  decide +kernel

end Partition

end ReplicatedStore
