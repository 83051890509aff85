import ReplicatedStore.Config.Groups
import ReplicatedStore.Proofs.Config.Lines
import ReplicatedStore.Proofs.Partition.RoundTrip
import ReplicatedStore.Proofs.Routing.Rendezvous
/-!
# Reading configured groups back

Groups whose settings are written as property text are read back from it, in the order of their names.
Neither the order of the lines nor that of the listed partitions counts, nor whether settings with their
default values are written.
-/

namespace ReplicatedStore

open SocketAddress (Resolver)

variable {resolver : Resolver}

/-! ### What is written -/

structure Partition.IsListable (resolver : Resolver) (p : Partition) : Prop where
  parse : Partition.parse resolver p.print = .ok p
  comma : ',' ∉ p.print.toList
  newline : '\n' ∉ p.print.toList
  start : ∀ c, p.print.toList.head? = some c → Text.isBlank c = false

theorem Partition.IsListable.trimmed {p : Partition} (h : p.IsListable resolver) :
    Text.trimmed p.print.toList = p.print.toList := by
  -- The text ends with a separator or with an address, so only its start has to be asked for.
  have hend : ∀ c ∈ '|' :: (printAddress p.control).toList, Text.isBlank c = false := by
    cases p.control with
    | none => exact List.forall_mem_cons.mpr ⟨rfl, by simp [printAddress]⟩
    | some address => exact List.forall_mem_cons.mpr ⟨rfl, fun c hc => SocketAddress.isBlank_of_mem_print hc⟩
  have htext : p.print.toList = (p.identity.group.toList ++ '|' :: (p.identity.id.toList ++ '|' ::
      (printAddress p.storage).toList)) ++ '|' :: (printAddress p.control).toList := by simp [toList_print]
  apply Text.trimmed_eq_self h.start
  intro c hc
  rw [htext, List.getLast?_append_of_ne_nil _ (by simp)] at hc
  exact hend c (List.mem_of_getLast? hc)

structure PartitionGroup.IsConfigurable (resolver : Resolver) (group : PartitionGroup) : Prop where
  nonempty : group.partitions ≠ []
  ascending : group.partitions.Pairwise fun a b => compare a b = .lt
  replicas_pos : 0 < group.replicas
  replicas_lt : group.replicas < UInt64.size
  listable : ∀ p ∈ group.partitions, p.IsListable resolver

namespace ConfigSource

inductive Setting where
  | ids
  | replicas
  | repartition
  | active
deriving DecidableEq

def Setting.key : Setting → String
  | ids => "ids"
  | replicas => "replicas"
  | repartition => "repartition"
  | active => "active"

def Setting.IsDefault (group : PartitionGroup) : Setting → Prop
  | ids => False
  | replicas => group.replicas = 1
  | repartition => group.repartition = false
  | active => group.active = true

/-- The texts that stand for a setting of a group. Its partitions are listed in any order, with white space
around each. -/
inductive Writes (group : PartitionGroup) : Setting → List Char → Prop where
  | ids {listed : List Partition} {items : List (List Char)} : listed.Perm group.partitions →
      List.Forall₂ (fun p item => Padded p.print.toList item) listed items →
      Writes group .ids ([','].intercalate items)
  | replicas : Writes group .replicas (toString group.replicas).toList
  | repartition : Writes group .repartition (toString group.repartition).toList
  | active : Writes group .active (toString group.active).toList

structure WrittenSetting where
  name : String
  setting : Setting
  value : List Char

def WrittenSetting.pair (written : WrittenSetting) : String × List Char :=
  (groupKey written.name written.setting.key, written.value)

/-- Groups by name that make up a configuration. -/
structure IsLayout (resolver : Resolver) (layout : List (String × PartitionGroup)) : Prop where
  nonempty : layout ≠ []
  ascending : (layout.map Prod.fst).Pairwise fun a b => compare a b = .lt
  names : ∀ entry ∈ layout, '=' ∉ entry.1.toList ∧ '\n' ∉ entry.1.toList
  groups : ∀ entry ∈ layout, entry.2.IsConfigurable resolver

/-- Settings that describe the groups of a configuration: each is written once, unless it is left out as the
default. -/
structure Describes (written : List WrittenSetting) (layout : List (String × PartitionGroup)) : Prop where
  once : (written.map fun w => (w.name, w.setting)).Nodup
  right : ∀ w ∈ written, ∃ group, (w.name, group) ∈ layout ∧ Writes group w.setting w.value
  complete : ∀ entry ∈ layout, ∀ setting : Setting, setting.IsDefault entry.2 ∨
    ∃ w ∈ written, w.name = entry.1 ∧ w.setting = setting

/-! ### Keys -/

theorem toList_groupKey (name setting : String) :
    (groupKey name setting).toList = groupBeginning.toList ++ (name.toList ++ '.' :: setting.toList) := by
  simp [groupKey]

theorem isKey_groupKey {name : String} (hequals : '=' ∉ name.toList) (hnewline : '\n' ∉ name.toList)
    (setting : Setting) : IsKey (groupKey name setting.key) where
  equals := by cases setting <;> simp [toList_groupKey, groupBeginning, Setting.key, hequals]
  newline := by cases setting <;> simp [toList_groupKey, groupBeginning, Setting.key, hnewline]
  first := by
    refine ⟨'p', "artitionGroup.".toList ++ (name.toList ++ '.' :: setting.key.toList), ?_, rfl, by decide⟩
    simp [toList_groupKey, groupBeginning]
  tight := by
    apply Text.trimmed_eq_self
    · simp [toList_groupKey, groupBeginning, Text.isBlank]
    · have hend : ('.' :: setting.key.toList).all (fun c => !Text.isBlank c) = true := by cases setting <;> rfl
      intro c hc
      rw [toList_groupKey, ← List.append_assoc, List.getLast?_append_of_ne_nil _ (by simp)] at hc
      simpa using List.all_eq_true.mp hend c (List.mem_of_getLast? hc)

/-- The group of a key is told, whatever its name. -/
theorem groupOfKey?_groupKey (name : String) (setting : Setting) :
    groupOfKey? (groupKey name setting.key) = some name := by
  have hdot : '.' ∉ setting.key.toList := by cases setting <;> decide
  have hafter : Text.after? groupBeginning.toList (groupKey name setting.key).toList =
      some (name.toList ++ '.' :: setting.key.toList) := by
    rw [Text.after?, toList_groupKey, if_pos (by simp), List.drop_left]
  simp [groupOfKey?, hafter, Text.splitLast?_append _ hdot]

theorem groupKey_inj {name other : String} {setting otherSetting : Setting}
    (h : groupKey name setting.key = groupKey other otherSetting.key) :
    name = other ∧ setting = otherSetting := by
  have hname : name = other := by
    have hgroup := congrArg groupOfKey? h
    rwa [groupOfKey?_groupKey, groupOfKey?_groupKey, Option.some.injEq] at hgroup
  subst hname
  have hkeys : ∀ {setting other : Setting}, setting.key = other.key → setting = other := by
    intro setting other h
    cases setting <;> cases other <;> first | rfl | exact absurd h (by decide)
  have htext := congrArg String.toList h
  rw [toList_groupKey, toList_groupKey] at htext
  exact ⟨rfl, hkeys (String.toList_inj.mp (by simpa using htext))⟩

/-! ### Values -/

variable {group : PartitionGroup} {value : List Char}

private theorem map_trimmed_items {listed : List Partition} {items : List (List Char)}
    (hitems : List.Forall₂ (fun p item => Padded p.print.toList item) listed items)
    (hlistable : ∀ p ∈ listed, p.IsListable resolver) : items.map Text.trimmed = listed.map fun p => p.print.toList := by
  induction hitems with
  | nil => rfl
  | cons hitem _ ih =>
    obtain ⟨hp, hrest⟩ := List.forall_mem_cons.mp hlistable
    rw [List.map_cons, List.map_cons, hitem.trimmed, hp.trimmed, ih hrest]

private theorem not_mem_items {c : Char} (hc : Text.isBlank c = false ∨ c = '\n') {listed : List Partition}
    {items : List (List Char)} (hitems : List.Forall₂ (fun p item => Padded p.print.toList item) listed items)
    (hprint : ∀ p ∈ listed, c ∉ p.print.toList) : ∀ item ∈ items, c ∉ item := by
  induction hitems with
  | nil => simp
  | cons hitem _ ih =>
    obtain ⟨hp, hrest⟩ := List.forall_mem_cons.mp hprint
    exact List.forall_mem_cons.mpr ⟨hitem.not_mem hp hc, ih hrest⟩

theorem newline_not_mem_of_writes (hgroup : group.IsConfigurable resolver) {setting : Setting}
    (h : Writes group setting value) : '\n' ∉ value := by
  cases h with
  | ids hlisted hitems =>
    apply Text.not_mem_intercalate (by decide)
    apply not_mem_items (.inr rfl) hitems
    intro p hp
    exact (hgroup.listable p (hlisted.subset hp)).newline
  | replicas => simpa using Text.not_mem_toDigits (by omega) (by omega) rfl group.replicas
  | repartition => cases group.repartition <;> decide
  | active => cases group.active <;> decide

private theorem mapM_eq_ok {α β γ ε : Type} {f : α → Except ε γ} {g : β → α} {r : β → γ} {items : List β}
    (h : ∀ b ∈ items, f (g b) = .ok (r b)) : (items.map g).mapM f = .ok (items.map r) := by
  induction items with
  | nil => rfl
  | cons b items ih =>
    obtain ⟨hb, hrest⟩ := List.forall_mem_cons.mp h
    simp [hb, ih hrest, bind, Except.bind, pure, Except.pure]

theorem readPartitions_of_writes (hgroup : group.IsConfigurable resolver) (h : Writes group .ids value) (key : String) :
    ∃ listed, readPartitions resolver key (String.ofList (Text.trimmed value)) = .ok listed ∧
      listed.Perm group.partitions := by
  cases h with
  | @ids listed items hlisted hitems =>
    have hlistable : ∀ p ∈ listed, p.IsListable resolver := fun p hp => hgroup.listable p (hlisted.subset hp)
    have hcomma := not_mem_items (.inl rfl) hitems fun p hp => (hlistable p hp).comma
    have hne : items ≠ [] := by
      intro hnil
      rw [hnil, List.forall₂_nil_right_iff] at hitems
      rw [hitems] at hlisted
      exact hgroup.nonempty hlisted.nil_eq.symm
    have hfilled : ∀ p : Partition, p.print.toList.isEmpty = false := by
      intro p
      simp [Partition.toList_print]
    have hread : ∀ p ∈ listed, (Partition.parse resolver (String.ofList p.print.toList)).mapError
        (ConfigError.malformedPartition key) = .ok p := by
      intro p hp
      rw [String.ofList_toList, (hlistable p hp).parse]
      rfl
    refine ⟨listed, ?_, hlisted⟩
    rw [readPartitions, String.toList_ofList, Text.map_trimmed_split_trimmed rfl, Text.split_eq_splitOn,
      List.splitOn_intercalate _ hcomma hne, map_trimmed_items hitems hlistable, List.filter_map]
    simpa [Function.comp_def, hfilled] using mapM_eq_ok hread

theorem readUnsigned_of_writes (hgroup : group.IsConfigurable resolver) (h : Writes group .replicas value) :
    readUnsigned 64 (String.ofList (Text.trimmed value)) = some group.replicas := by
  cases h
  have htrimmed : Text.trimmed (Nat.toDigits 10 group.replicas) = Nat.toDigits 10 group.replicas := by
    apply Text.trimmed_eq_self_of_forall
    intro c hc
    exact Text.isBlank_of_isAlphanum (Text.isAlphanum_of_mem_toDigits (by omega) (by omega) hc)
  have hread := Text.unsigned?_toDigits hgroup.replicas_lt
  simpa [readUnsigned, htrimmed] using hread

theorem readBool_toString (b : Bool) : readBool (String.ofList (Text.trimmed (toString b).toList)) = some b := by
  cases b <;> decide

/-! ### Groups -/

variable {written : List WrittenSetting} {layout : List (String × PartitionGroup)}

def sourceOf (written : List WrittenSetting) : ConfigSource :=
  ofPairs (written.map fun w => (w.pair.1, String.ofList (Text.trimmed w.pair.2)))

theorem IsLayout.eq_of_mem (hlayout : IsLayout resolver layout) {name : String} {group other : PartitionGroup}
    (hgroup : (name, group) ∈ layout) (hother : (name, other) ∈ layout) : group = other :=
  congrArg Prod.snd (List.inj_on_of_nodup_map (nodup_of_ascending hlayout.ascending) hgroup hother rfl)

theorem get?_sourceOf_eq_some (h : Describes written layout) (name : String) (setting : Setting)
    (value : String) : (sourceOf written).get? (groupKey name setting.key) = some value ↔
      ∃ w ∈ written, w.name = name ∧ w.setting = setting ∧ String.ofList (Text.trimmed w.value) = value := by
  have honce :
      ((written.map fun w => (w.pair.1, String.ofList (Text.trimmed w.pair.2))).map Prod.fst).Nodup := by
    have hkeys := List.Nodup.map (f := fun key : String × Setting => groupKey key.1 key.2.key)
      (fun _ _ heq => Prod.ext_iff.mpr (groupKey_inj heq)) h.once
    simpa [Function.comp_def, WrittenSetting.pair] using hkeys
  rw [sourceOf, get?_ofPairs honce, List.mem_map]
  constructor
  · rintro ⟨w, hw, heq⟩
    obtain ⟨hkey, hvalue⟩ := Prod.ext_iff.mp heq
    obtain ⟨hname, hsetting⟩ := groupKey_inj hkey
    exact ⟨w, hw, hname, hsetting, hvalue⟩
  · rintro ⟨w, hw, rfl, rfl, rfl⟩
    exact ⟨w, hw, rfl⟩

theorem getOr_sourceOf (hlayout : IsLayout resolver layout) (h : Describes written layout) {α : Type}
    {read : String → Option α} {default a : α} {name : String} (hgroup : (name, group) ∈ layout)
    (setting : Setting)
    (hread : ∀ value, Writes group setting value → read (String.ofList (Text.trimmed value)) = some a)
    (hdefault : setting.IsDefault group → default = a) :
    (sourceOf written).getOr read (groupKey name setting.key) default = .ok a := by
  rw [getOr]
  cases hget : (sourceOf written).get? (groupKey name setting.key) with
  | none =>
    rcases h.complete _ hgroup setting with hleft | ⟨w, hw, hname, hsetting⟩
    · simp [hdefault hleft]
    · have hsome := (get?_sourceOf_eq_some h name setting _).mpr ⟨w, hw, hname, hsetting, rfl⟩
      rw [hget] at hsome
      contradiction
  | some text =>
    obtain ⟨w, hw, rfl, rfl, rfl⟩ := (get?_sourceOf_eq_some h name setting text).mp hget
    obtain ⟨other, hother, hwrites⟩ := h.right w hw
    rw [hlayout.eq_of_mem hother hgroup] at hwrites
    simp [hread w.value hwrites]

theorem ids_sourceOf (hlayout : IsLayout resolver layout) (h : Describes written layout) {name : String}
    (hgroup : (name, group) ∈ layout) :
    ∃ value listed, (sourceOf written).get? (groupKey name "ids") = some value ∧
      readPartitions resolver (groupKey name "ids") value = .ok listed ∧ listed.Perm group.partitions := by
  obtain ⟨w, hw, hname, hids⟩ := (h.complete _ hgroup .ids).resolve_left id
  obtain ⟨other, hother, hwrites⟩ := h.right w hw
  rw [hname] at hother
  rw [hids, hlayout.eq_of_mem hother hgroup] at hwrites
  have hvalue := (get?_sourceOf_eq_some h name .ids _).mpr ⟨w, hw, hname, hids, rfl⟩
  obtain ⟨listed, hlisted, hperm⟩ :=
    readPartitions_of_writes (hlayout.groups _ hgroup) hwrites (groupKey name "ids")
  exact ⟨_, listed, hvalue, hlisted, hperm⟩

theorem group_sourceOf (hlayout : IsLayout resolver layout) (h : Describes written layout) {name : String}
    (hgroup : (name, group) ∈ layout) : (sourceOf written).group resolver name = .ok group := by
  have hconfigurable : group.IsConfigurable resolver := hlayout.groups _ hgroup
  obtain ⟨value, listed, hvalue, hlisted, hperm⟩ := ids_sourceOf hlayout h hgroup
  have hsome : listed ≠ [] := fun hnil => hconfigurable.nonempty (by simpa [hnil] using hperm)
  have hreplicas : (sourceOf written).getOr (readUnsigned 64) (groupKey name "replicas") 1 =
      .ok group.replicas := by
    apply getOr_sourceOf hlayout h hgroup .replicas _ Eq.symm
    intro value hvalue
    exact readUnsigned_of_writes hconfigurable hvalue
  have hpositive : group.replicas ≠ 0 := Nat.ne_of_gt hconfigurable.replicas_pos
  have hrepartition : (sourceOf written).getOr readBool (groupKey name "repartition") false =
      .ok group.repartition := by
    apply getOr_sourceOf hlayout h hgroup .repartition _ Eq.symm
    intro value hvalue
    cases hvalue
    exact readBool_toString group.repartition
  have hactive : (sourceOf written).getOr readBool (groupKey name "active") true = .ok group.active := by
    apply getOr_sourceOf hlayout h hgroup .active _ Eq.symm
    intro value hvalue
    cases hvalue
    exact readBool_toString group.active
  have hresult : (((PartitionGroup.ofList listed).withReplicas group.replicas).withRepartition
      group.repartition).withActive group.active = group := by
    simp [PartitionGroup.ofList, PartitionGroup.withReplicas, PartitionGroup.withRepartition,
      PartitionGroup.withActive, sortedDistinct_of_perm hperm hconfigurable.ascending]
  simp [ConfigSource.group, hvalue, hlisted, hsome, hreplicas, hpositive, hrepartition, hactive, hresult, bind,
    Except.bind, pure, Except.pure]

theorem groupNames_sourceOf (hlayout : IsLayout resolver layout) (h : Describes written layout) :
    (sourceOf written).groupNames = layout.map Prod.fst := by
  apply eq_of_ascending (sortedDistinct_ascending _) hlayout.ascending
  intro name
  have hkeys : ∀ key, key ∈ (sourceOf written).values.keys ↔
      ∃ w ∈ written, groupKey w.name w.setting.key = key := by
    intro key
    rw [sourceOf, mem_keys_ofPairs]
    simp [WrittenSetting.pair]
  rw [mem_sortedDistinct_iff, List.mem_filterMap]
  constructor
  · rintro ⟨key, hkey, hname⟩
    obtain ⟨w, hw, rfl⟩ := (hkeys key).mp hkey
    rw [groupOfKey?_groupKey, Option.some.injEq] at hname
    obtain ⟨group, hgroup, -⟩ := h.right w hw
    rw [← hname]
    exact List.mem_map_of_mem hgroup
  · intro hname
    obtain ⟨entry, hentry, rfl⟩ := List.mem_map.mp hname
    obtain ⟨w, hw, hname, -⟩ := (h.complete entry hentry .ids).resolve_left id
    exact ⟨_, (hkeys _).mpr ⟨w, hw, rfl⟩, by rw [groupOfKey?_groupKey, hname]⟩

/-- Whatever text groups are written as, they are read back from it, in the order of their names. -/
theorem groups_of_lines {lines : List (List Char)} (hlayout : IsLayout resolver layout) (h : Describes written layout)
    (hlines : Lines (written.map WrittenSetting.pair) lines) :
    ∃ source, parse (String.ofList (['\n'].intercalate lines)) = .ok source ∧
      source.groupNames = layout.map Prod.fst ∧ source.groups resolver = .ok (layout.map Prod.snd) := by
  have hpairs : ∀ setting ∈ written.map WrittenSetting.pair, IsKey setting.1 ∧ '\n' ∉ setting.2 := by
    rw [List.forall_mem_map]
    intro w hw
    obtain ⟨group, hgroup, hwrites⟩ := h.right w hw
    obtain ⟨hequals, hnewline⟩ := hlayout.names _ hgroup
    exact ⟨isKey_groupKey hequals hnewline w.setting,
      newline_not_mem_of_writes (hlayout.groups _ hgroup) hwrites⟩
  have hnames := groupNames_sourceOf hlayout h
  refine ⟨sourceOf written, ?_, hnames, ?_⟩
  · rw [parse_lines hlines (fun s hs => (hpairs s hs).1) fun s hs => (hpairs s hs).2, List.map_map]
    rfl
  · have hread : ∀ entry ∈ layout, (sourceOf written).group resolver entry.1 = .ok entry.2 := fun entry hentry =>
      group_sourceOf hlayout h hentry
    rw [groups, hnames, mapM_eq_ok hread]
    simp [hlayout.nonempty]

/-- A group without a name and one with a dot in its name, whose settings stand between each other's. -/
theorem groups_of_lines_intermixed :
    let resolver : Resolver := fun _ => .ok []
    let lines := ["# groups".toList, "partitionGroup.a.b.ids ".toList ++ '=' :: " x=y|b||, x=y|a|| ".toList, [],
      "partitionGroup..replicas".toList ++ '=' :: "2".toList,
      "\tpartitionGroup.a.b.active ".toList ++ '=' :: "false".toList,
      "partitionGroup..ids".toList ++ '=' :: "|n||".toList]
    ∃ source, parse (String.ofList (['\n'].intercalate lines)) = .ok source ∧ source.groupNames = ["", "a.b"] ∧
      source.groups resolver = .ok [⟨[⟨⟨"", "n"⟩, none, none⟩], 2, false, true⟩,
        ⟨[⟨⟨"x=y", "a"⟩, none, none⟩, ⟨⟨"x=y", "b"⟩, none, none⟩], 1, false, false⟩] := by
  intro resolver
  let nameless : PartitionGroup := ⟨[⟨⟨"", "n"⟩, none, none⟩], 2, false, true⟩
  let dotted : PartitionGroup := ⟨[⟨⟨"x=y", "a"⟩, none, none⟩, ⟨⟨"x=y", "b"⟩, none, none⟩], 1, false, false⟩
  let written : List WrittenSetting := [⟨"a.b", .ids, [','].intercalate ["x=y|b||".toList, " x=y|a||".toList]⟩,
    ⟨"", .replicas, "2".toList⟩, ⟨"a.b", .active, "false".toList⟩, ⟨"", .ids, [','].intercalate ["|n||".toList]⟩]
  have hlistable : ∀ group ∈ [nameless, dotted], ∀ p ∈ group.partitions, p.IsListable resolver := by
    have hseparators : ∀ group ∈ [nameless, dotted], ∀ p ∈ group.partitions, p.identity.separators = 0 ∧
      ',' ∉ p.print.toList ∧ '\n' ∉ p.print.toList ∧ p.print.toList.head?.all (fun c => !Text.isBlank c) := by
      decide +kernel
    intro group hgroup p hp
    obtain ⟨hseparators, hcomma, hnewline, hstart⟩ := hseparators group hgroup p hp
    refine ⟨Partition.parse_print_of_separators hseparators, hcomma, hnewline, ?_⟩
    intro c hc
    simpa [hc] using hstart
  have hlayout : IsLayout resolver [("", nameless), ("a.b", dotted)] := by
    refine ⟨by simp, by decide, by decide, ?_⟩
    rw [List.forall_mem_cons, List.forall_mem_singleton]
    exact ⟨⟨by simp [nameless], by decide, by decide, by decide, hlistable nameless (by simp)⟩,
      ⟨by simp [dotted], by decide, by decide, by decide, hlistable dotted (by simp)⟩⟩
  have hempty : Padding [] := by decide
  have hspace : Padding [' '] := by decide
  have htab : Padding ['\t'] := by decide
  have hplain : ∀ core, Padded core core := fun core => ⟨[], [], hempty, hempty, by simp⟩
  have hbefore : ∀ core, Padded core (' ' :: core) := fun core => ⟨[' '], [], hspace, hempty, by simp⟩
  have hwritten : Describes written [("", nameless), ("a.b", dotted)] := by
    refine ⟨by decide, ?_, ?_⟩
    · have hids : Writes dotted .ids ([','].intercalate ["x=y|b||".toList, " x=y|a||".toList]) :=
        .ids (List.Perm.swap _ _ _) (.cons (hplain _) (.cons (hbefore _) .nil))
      have hnameless : Writes nameless .ids ([','].intercalate ["|n||".toList]) :=
        .ids (List.Perm.refl _) (.cons (hplain _) .nil)
      have hreplicas : Writes nameless .replicas "2".toList := by
        have htext : (toString nameless.replicas).toList = "2".toList := by decide
        exact htext ▸ .replicas
      simp only [written, List.forall_mem_cons, List.not_mem_nil, IsEmpty.forall_iff, implies_true, and_true]
      exact ⟨⟨dotted, by simp, hids⟩, ⟨nameless, by simp, hreplicas⟩, ⟨dotted, by simp, .active⟩,
        ⟨nameless, by simp, hnameless⟩⟩
    · rw [List.forall_mem_cons, List.forall_mem_singleton]
      constructor
      · intro setting
        cases setting with
        | ids => exact .inr ⟨_, .tail _ (.tail _ (.tail _ (.head _))), rfl, rfl⟩
        | replicas => exact .inr ⟨_, .tail _ (.head _), rfl, rfl⟩
        | repartition => exact .inl rfl
        | active => exact .inl rfl
      · intro setting
        cases setting with
        | ids => exact .inr ⟨_, .head _, rfl, rfl⟩
        | replicas => exact .inl rfl
        | repartition => exact .inl rfl
        | active => exact .inr ⟨_, .tail _ (.tail _ (.head _)), rfl, rfl⟩
  apply groups_of_lines hlayout hwritten
  apply Lines.remark (.remark hempty (by decide))
  apply Lines.setting ⟨[], [' '], hempty, hspace, rfl⟩ ⟨[' '], [' '], hspace, hspace, rfl⟩
  apply Lines.remark (.blank hempty)
  apply Lines.setting (hplain _) (hplain _)
  apply Lines.setting ⟨['\t'], [' '], htab, hspace, rfl⟩ (hplain _)
  apply Lines.setting (hplain _) (hplain _)
  exact .nil

end ConfigSource

end ReplicatedStore
