import Mathlib.Algebra.BigOperators.Group.List.Lemmas
import Mathlib.Algebra.GroupWithZero.Nat
import Mathlib.Data.List.Induction
import Mathlib.Data.List.Nodup
import Mathlib.Tactic.ByContra
import Mathlib.Tactic.SplitIfs
import SchemaFilter.Compile.Grouping
import SchemaFilter.Proofs.NameTable
import SchemaFilter.Proofs.Predicate.Truth

/-!
# What the groups hold

The groups of a compilation are filled by one push after the other. Here they are described at once
by the list of all pushes, those that were refused included: the groups come in the order of first
occurrence, each has the operator of its first member, and holds, in order, the members that
declare this operator.

Results:

* `Grouping.push_conflict`, `Grouping.push_agreeing`: one push keeps this description;
* `Consistent.conflict?_eq_none_iff`: among consistent memberships a further one is refused exactly
  if it makes them inconsistent;
* `Grouping.finish_of_consistent`: consistent members are folded on two levels;
* `perm_comparisons_foldMembers`, `leafCount_foldMembers`, `branching_foldMembers`,
  `depth_foldMembers_le`: the fold of leaves has all of them, has no group of one, and has at most
  three levels;
* `eval_foldMembers_iff`: a fold of consistent members holds exactly if every group does.
-/

namespace SchemaFilter

/-! ## Memberships -/

/-- The group that a predicate goes to, and the operator that is declared for it. -/
structure Membership where
  group : String
  op : Combine
  deriving DecidableEq, Repr

/-- A predicate on its way to a group. -/
structure Member extends Membership where
  predicate : Predicate

/-- The operator of a group: the one that the first membership in it declares. -/
def operator? (ms : List Membership) (id : String) : Option Combine :=
  (ms.find? (·.group == id)).map (·.op)

/-- The conflict of a membership with earlier ones. -/
def Membership.conflict? (earlier : List Membership) (m : Membership) : Option CompileError :=
  (operator? earlier m.group).bind fun first =>
    if first = m.op then none else some (.configurationConflict m.group first m.op)

/-- Memberships in one group declare one operator. -/
def Consistent (ms : List Membership) : Prop :=
  ∀ m ∈ ms, ∀ n ∈ ms, m.group = n.group → m.op = n.op

theorem operator?_append (ms ns : List Membership) (id : String) :
    operator? (ms ++ ns) id = (operator? ms id).or (operator? ns id) := by
  rw [operator?, List.find?_append, operator?, operator?]
  cases ms.find? (·.group == id) <;> rfl

theorem operator?_singleton (m : Membership) (id : String) :
    operator? [m] id = if m.group = id then some m.op else none := by
  by_cases h : m.group = id <;> simp [operator?, h]

theorem operator?_eq_none_iff {ms : List Membership} {id : String} :
    operator? ms id = none ↔ ∀ m ∈ ms, m.group ≠ id := by
  simp [operator?]

/-- The operator of a group is declared by one of its memberships. -/
theorem exists_mem_of_operator? {ms : List Membership} {id : String} {op : Combine}
    (h : operator? ms id = some op) : ∃ m ∈ ms, m.group = id ∧ m.op = op := by
  obtain ⟨m, hm, hop⟩ := Option.map_eq_some_iff.mp h
  exact ⟨m, List.mem_of_find?_eq_some hm, by simpa using List.find?_some hm, hop⟩

/-- A membership conflicts with earlier ones exactly if its group has the other operator. -/
theorem Membership.conflict?_eq_some_iff {ms : List Membership} {m : Membership}
    {e : CompileError} :
    m.conflict? ms = some e ↔
      ∃ first, operator? ms m.group = some first ∧ first ≠ m.op ∧
        e = .configurationConflict m.group first m.op := by
  rw [conflict?, Option.bind_eq_some_iff]
  refine exists_congr fun first => and_congr_right fun _ => ?_
  split_ifs with hop
  · simp [hop]
  · rw [Option.some.injEq, eq_comm, and_iff_right hop]

namespace Consistent

theorem nil : Consistent [] := fun _ h => absurd h List.not_mem_nil

/-- In a group of consistent memberships every one declares the operator of the group. -/
theorem operator?_eq {ms : List Membership} (h : Consistent ms) {m : Membership} (hm : m ∈ ms) :
    operator? ms m.group = some m.op := by
  cases hop : operator? ms m.group with
  | none => exact absurd rfl (operator?_eq_none_iff.mp hop m hm)
  | some op =>
    obtain ⟨n, hn, hg, rfl⟩ := exists_mem_of_operator? hop
    rw [h n hn m hm hg]

theorem of_append_left {ms ns : List Membership} (h : Consistent (ms ++ ns)) : Consistent ms :=
  fun m hm n hn => h m (List.mem_append_left ns hm) n (List.mem_append_left ns hn)

theorem conflict?_eq_none_iff {ms : List Membership} (h : Consistent ms) (m : Membership) :
    m.conflict? ms = none ↔ Consistent (ms ++ [m]) := by
  constructor
  · intro hc
    -- the members of `ms` in the group of `m` declare its operator
    have hm : ∀ n ∈ ms, n.group = m.group → n.op = m.op := by
      intro n hn hg
      rw [Membership.conflict?, ← hg, h.operator?_eq hn, Option.bind_some] at hc
      by_contra hne
      rw [if_neg hne] at hc
      exact Option.some_ne_none _ hc
    intro a ha b hb hg
    rw [List.mem_append, List.mem_singleton] at ha hb
    rcases ha with ha | rfl <;> rcases hb with hb | rfl
    · exact h a ha b hb hg
    · exact hm a ha hg
    · exact (hm b hb hg.symm).symm
    · rfl
  · intro hc
    unfold Membership.conflict?
    cases hop : operator? ms m.group with
    | none => rfl
    | some first =>
      obtain ⟨n, hn, hg, rfl⟩ := exists_mem_of_operator? hop
      have : n.op = m.op :=
        hc n (List.mem_append_left _ hn) m (List.mem_append_right _ (List.mem_singleton_self m)) hg
      rw [Option.bind_some, if_pos this]

end Consistent

/-! ## Groups described by their pushes -/

/-- The memberships of members. -/
def memberships (ms : List Member) : List Membership := ms.map Member.toMembership

theorem memberships_append (ms ns : List Member) :
    memberships (ms ++ ns) = memberships ms ++ memberships ns := List.map_append

theorem memberships_singleton (m : Member) : memberships [m] = [m.toMembership] := rfl

/-- The ids of the groups of some members, in the order of first occurrence. -/
def groupIds (ms : List Member) : List String := (ms.map fun m => m.group).eraseDups

/-- One group of some members: its first member fixes the operator, and a member that declares
    another one is left out. -/
def groupOf (ms : List Member) (id : String) : Group :=
  let op := (operator? (memberships ms) id).getD .and
  ⟨id, op, (ms.filter fun m => m.group == id && m.op == op).map (·.predicate)⟩

/-- The groups of some members. -/
def groupsOf (ms : List Member) : List Group := (groupIds ms).map (groupOf ms)

theorem mem_groupIds {ms : List Member} {id : String} :
    id ∈ groupIds ms ↔ ∃ m ∈ ms, m.group = id := by
  simp [groupIds]

/-- A further member opens a group at the end, or its group is there. -/
theorem groupIds_concat (ms : List Member) (m : Member) :
    groupIds (ms ++ [m]) =
      if m.group ∈ groupIds ms then groupIds ms else groupIds ms ++ [m.group] := by
  rw [groupIds, groupIds, List.map_append, List.map_singleton, eraseDups_concat]
  simp only [List.mem_eraseDups]

theorem nodup_groupIds (ms : List Member) : (groupIds ms).Nodup := by
  induction ms using List.reverseRecOn with
  | nil => exact List.nodup_nil
  | append_singleton ms m ih =>
    rw [groupIds_concat]
    split_ifs with h
    · exact ih
    · rw [← List.concat_eq_append]
      exact ih.concat h

theorem operator?_memberships_eq_none {ms : List Member} {id : String} (h : id ∉ groupIds ms) :
    operator? (memberships ms) id = none := by
  rw [operator?_eq_none_iff]
  intro n hn hg
  obtain ⟨m, hm, rfl⟩ := List.mem_map.mp hn
  exact h (mem_groupIds.mpr ⟨m, hm, hg⟩)

theorem exists_operator?_of_mem_groupIds {ms : List Member} {id : String} (h : id ∈ groupIds ms) :
    ∃ op, operator? (memberships ms) id = some op := by
  obtain ⟨m, hm, hg⟩ := mem_groupIds.mp h
  cases hop : operator? (memberships ms) id with
  | none => exact absurd hg (operator?_eq_none_iff.mp hop _ (List.mem_map_of_mem hm))
  | some op => exact ⟨op, rfl⟩

/-- A member of another group changes nothing in a group. -/
theorem groupOf_concat_of_ne {ms : List Member} {m : Member} {id : String} (h : m.group ≠ id) :
    groupOf (ms ++ [m]) id = groupOf ms id := by
  have hop : operator? (memberships (ms ++ [m])) id = operator? (memberships ms) id := by
    rw [memberships_append, operator?_append, memberships_singleton, operator?_singleton, if_neg h,
      Option.or_none]
  simp [groupOf, hop, h]

/-- A member of a group that is there goes to its end, if it declares the group's operator. -/
theorem groupOf_concat_of_operator? {ms : List Member} {m : Member} {op : Combine}
    (h : operator? (memberships ms) m.group = some op) :
    groupOf (ms ++ [m]) m.group =
      if op = m.op then
        { groupOf ms m.group with members := (groupOf ms m.group).members ++ [m.predicate] }
      else groupOf ms m.group := by
  have hop : operator? (memberships (ms ++ [m])) m.group = some op := by
    rw [memberships_append, operator?_append, h, Option.some_or]
  by_cases hm : op = m.op
  · subst hm
    simp [groupOf, hop, h]
  · have : ¬m.op = op := fun e => hm e.symm
    simp [groupOf, hop, h, hm, this]

/-- The first member of a group makes it. -/
theorem groupOf_concat_of_notMem {ms : List Member} {m : Member} (h : m.group ∉ groupIds ms) :
    groupOf (ms ++ [m]) m.group = ⟨m.group, m.op, [m.predicate]⟩ := by
  have hop : operator? (memberships (ms ++ [m])) m.group = some m.op := by
    rw [memberships_append, operator?_append, operator?_memberships_eq_none h, Option.none_or,
      memberships_singleton, operator?_singleton, if_pos rfl]
  have hnone : (ms.filter fun n => n.group == m.group && n.op == m.op) = [] := by
    rw [List.filter_eq_nil_iff]
    intro n hn
    have : n.group ≠ m.group := fun e => h (mem_groupIds.mpr ⟨n, hn, e⟩)
    simp [this]
  simp [groupOf, hop, hnone]

/-! ## Tables of groups -/

theorem find?_map_groupOf (ms : List Member) (id : String) (ids : List String) :
    (ids.map (groupOf ms)).find? (Named.name · == id) =
      if id ∈ ids then some (groupOf ms id) else none := by
  induction ids with
  | nil => rfl
  | cons i ids ih =>
    have hname : Named.name (groupOf ms i) = i := rfl
    rw [List.map_cons, List.find?_cons, hname, ih]
    by_cases h : i = id
    · simp [h]
    · rw [beq_false_of_ne h]
      simp [Ne.symm h]

theorem put_map_of_notMem {g : Group} {f : String → Group} {ids : List String}
    (hf : ∀ i, (f i).id = i) (h : g.id ∉ ids) :
    NameTable.put g (ids.map f) = ids.map f ++ [g] := by
  induction ids with
  | nil => rfl
  | cons i ids ih =>
    have hname : Named.name (f i) = i := hf i
    have hne : ¬i = Named.name g := fun e => h (e ▸ List.mem_cons_self)
    rw [List.map_cons, NameTable.put, hname, if_neg hne, ih fun hm => h (List.mem_cons_of_mem i hm)]
    rfl

theorem put_map_of_mem {g : Group} {f f' : String → Group} {ids : List String}
    (hf : ∀ i, (f i).id = i) (hnodup : ids.Nodup) (hmem : g.id ∈ ids)
    (hg : f' g.id = g) (hne : ∀ i, i ≠ g.id → f' i = f i) :
    NameTable.put g (ids.map f) = ids.map f' := by
  induction ids with
  | nil => exact absurd hmem List.not_mem_nil
  | cons i ids ih =>
    have hname : Named.name (f i) = i := hf i
    have hgid : Named.name g = g.id := rfl
    rw [List.nodup_cons] at hnodup
    rw [List.map_cons, NameTable.put, hname, hgid, List.map_cons]
    by_cases h : i = g.id
    · rw [if_pos h, h, hg]
      congr 1
      apply List.map_congr_left
      intro j hj
      exact (hne j fun e => hnodup.1 (h ▸ e ▸ hj)).symm
    · have hmem' : g.id ∈ ids := (List.mem_cons.mp hmem).resolve_left fun e => h e.symm
      rw [if_neg h, hne i h, ih hnodup.2 hmem']

namespace Grouping

variable {g : Grouping} {ms : List Member}

theorem find?_eq (h : g.groups.items = groupsOf ms) (id : String) :
    g.groups.find? id = if id ∈ groupIds ms then some (groupOf ms id) else none := by
  rw [NameTable.find?_eq, h, groupsOf, find?_map_groupOf]

/-- A push that fails leaves the groups as they were. -/
theorem snd_push_of_error {id : String} {op : Combine} {p : Predicate} {e : CompileError}
    (h : (g.push id op p).1 = .error e) : (g.push id op p).2 = g := by
  unfold push at h ⊢
  cases hgroup : g.groups.find? id with
  | none =>
    simp only [hgroup] at h
    cases h
  | some group =>
    simp only [hgroup] at h ⊢
    split_ifs at h ⊢
    rfl

/-- A push that declares another operator than its group has is refused, and all pushes, this one
    included, describe the groups as they were. -/
theorem push_conflict (h : g.groups.items = groupsOf ms) {m : Member} {e : CompileError}
    (hc : m.conflict? (memberships ms) = some e) :
    g.push m.group m.op m.predicate = (.error e, g) ∧ groupsOf (ms ++ [m]) = groupsOf ms := by
  obtain ⟨op, hop, he⟩ := Option.bind_eq_some_iff.mp hc
  have hmem : m.group ∈ groupIds ms := by
    by_contra hn
    rw [operator?_memberships_eq_none hn] at hop
    exact Option.some_ne_none _ hop.symm
  have hne : ¬op = m.op := by
    intro heq
    rw [if_pos heq] at he
    exact Option.some_ne_none _ he.symm
  rw [if_neg hne, Option.some.injEq] at he
  have hgop : (groupOf ms m.group).op = op := by simp [groupOf, hop]
  constructor
  · rw [push, find?_eq h, if_pos hmem, ← he, ← hgop]
    exact if_neg (hgop ▸ hne)
  · rw [groupsOf, groupIds_concat, if_pos hmem, groupsOf]
    apply List.map_congr_left
    intro id _
    by_cases hid : m.group = id
    · rw [← hid, groupOf_concat_of_operator? hop, if_neg hne]
    · exact groupOf_concat_of_ne hid

/-- A push into a new group, or with the operator of its group, adds the member. -/
theorem push_agreeing (h : g.groups.items = groupsOf ms) {m : Member}
    (hc : m.conflict? (memberships ms) = none) :
    ∃ g', g.push m.group m.op m.predicate = (.ok (), g') ∧
      g'.groups.items = groupsOf (ms ++ [m]) := by
  by_cases hmem : m.group ∈ groupIds ms
  · obtain ⟨op, hop⟩ := exists_operator?_of_mem_groupIds hmem
    have heq : op = m.op := by
      by_contra hne
      rw [Membership.conflict?, hop, Option.bind_some, if_neg hne] at hc
      exact Option.some_ne_none _ hc
    have hgop : (groupOf ms m.group).op = m.op := by simp [groupOf, hop, heq]
    refine ⟨_, by rw [push, find?_eq h, if_pos hmem]; exact if_pos hgop, ?_⟩
    rw [NameTable.items_insert, h, groupsOf, groupsOf, groupIds_concat, if_pos hmem]
    apply put_map_of_mem (fun _ => rfl) (nodup_groupIds ms) hmem
    · exact (groupOf_concat_of_operator? hop).trans (if_pos heq)
    · intro id hid
      exact groupOf_concat_of_ne fun e => hid e.symm
  · refine ⟨_, by rw [push, find?_eq h, if_neg hmem], ?_⟩
    rw [NameTable.items_insert, h, groupsOf, groupsOf, groupIds_concat, if_neg hmem,
      put_map_of_notMem (fun _ => rfl) hmem, List.map_append, List.map_singleton,
      groupOf_concat_of_notMem hmem]
    congr 1
    apply List.map_congr_left
    intro id hid
    exact (groupOf_concat_of_ne fun e => hmem (e ▸ hid)).symm

theorem finish_eq (h : g.groups.items = groupsOf ms) (entity : String) :
    g.finish entity =
      if ms = [] then .error (.emptyCompilation entity)
      else .ok (.combine .and ((groupsOf ms).map Group.predicate)) := by
  rw [finish, NameTable.isEmpty, h]
  cases ms with
  | nil => rfl
  | cons m ms =>
    have hmem : m.group ∈ groupIds (m :: ms) := mem_groupIds.mpr ⟨m, List.mem_cons_self, rfl⟩
    have hne : groupsOf (m :: ms) ≠ [] := by
      intro hnil
      rw [groupsOf, List.map_eq_nil_iff] at hnil
      exact List.not_mem_nil (hnil ▸ hmem)
    rw [if_neg (by simpa using hne), if_neg (List.cons_ne_nil m ms)]

end Grouping

/-! ## Folding consistent members -/

/-- The members of one group, in a flat group with its operator. -/
def foldGroup (ms : List Member) (id : String) : Predicate :=
  .flat ((operator? (memberships ms) id).getD .and)
    ((ms.filter (·.group == id)).map (·.predicate))

/-- Members folded on two levels: every group by its operator, and the groups, in the order of first
    occurrence, by AND. -/
def foldMembers (ms : List Member) : Predicate := .flat .and ((groupIds ms).map (foldGroup ms))

/-- Consistent members all stay in their groups. -/
theorem members_groupOf {ms : List Member} (h : Consistent (memberships ms)) (id : String) :
    (groupOf ms id).members = (ms.filter (·.group == id)).map (·.predicate) := by
  refine congrArg (List.map _) (List.filter_congr ?_)
  intro m hm
  by_cases hid : m.group = id
  · have hop := h.operator?_eq (List.mem_map_of_mem hm)
    rw [hid] at hop
    simp [hid, hop]
  · simp [hid]

theorem predicate_groupOf {ms : List Member} (h : Consistent (memberships ms)) (id : String) :
    (groupOf ms id).predicate = foldGroup ms id := by
  rw [Group.predicate, members_groupOf h, Predicate.combine_eq_flat]
  rfl

theorem Grouping.finish_of_consistent {g : Grouping} {ms : List Member}
    (h : g.groups.items = groupsOf ms) (hc : Consistent (memberships ms)) (hne : ms ≠ [])
    (entity : String) : g.finish entity = .ok (foldMembers ms) := by
  rw [finish_eq h, if_neg hne, groupsOf, List.map_map, foldMembers, Predicate.combine_eq_flat]
  congr 2
  apply List.map_congr_left
  intro id _
  exact predicate_groupOf hc id

/-- Members sorted into some groups, one group after the other. -/
theorem perm_flatMap_filter {ids : List String} (h : ids.Nodup) (ms : List Member) :
    (ids.flatMap fun id => ms.filter (·.group == id)).Perm (ms.filter (·.group ∈ ids)) := by
  induction ids with
  | nil => simp
  | cons id ids ih =>
    obtain ⟨hid, hids⟩ := List.nodup_cons.mp h
    -- the members of the first group, and those of the other groups
    have hfirst : (ms.filter (·.group ∈ id :: ids)).filter (·.group == id) =
        ms.filter (·.group == id) := by
      rw [List.filter_filter]
      apply List.filter_congr
      intro m _
      by_cases hm : m.group = id <;> simp [hm]
    have hothers : (ms.filter (·.group ∈ id :: ids)).filter (fun m => !m.group == id) =
        ms.filter (·.group ∈ ids) := by
      rw [List.filter_filter]
      apply List.filter_congr
      intro m _
      by_cases hm : m.group = id <;> simp [hm, hid]
    have hsplit := List.filter_append_perm (·.group == id) (ms.filter (·.group ∈ id :: ids))
    rw [hfirst, hothers] at hsplit
    rw [List.flatMap_cons]
    exact ((ih hids).append_left _).trans hsplit

/-- The groups together have the members that there are. -/
theorem perm_groups (ms : List Member) :
    ((groupIds ms).flatMap fun id => ms.filter (·.group == id)).Perm ms := by
  have hall : ms.filter (·.group ∈ groupIds ms) = ms := by
    rw [List.filter_eq_self]
    intro m hm
    simpa using mem_groupIds.mpr ⟨m, hm, rfl⟩
  have hperm := perm_flatMap_filter (nodup_groupIds ms) ms
  rwa [hall] at hperm

theorem sum_length_groups (ms : List Member) :
    ((groupIds ms).map fun id => (ms.filter (·.group == id)).length).sum = ms.length := by
  rw [← (perm_groups ms).length_eq, List.length_flatMap]

/-- A fold has the leaves of its members. -/
theorem perm_comparisons_foldMembers (ms : List Member) :
    (foldMembers ms).comparisons.Perm (ms.flatMap (·.predicate.comparisons)) := by
  have hfold : (foldMembers ms).comparisons =
      ((groupIds ms).flatMap fun id => ms.filter (·.group == id)).flatMap
        (·.predicate.comparisons) := by
    simp only [foldMembers, foldGroup, Predicate.comparisons_flat, List.flatMap_map,
      List.flatMap_assoc]
  rw [hfold]
  exact (perm_groups ms).flatMap_right _

variable {ms : List Member}

theorem leafCount_foldGroup (h : ∀ m ∈ ms, m.predicate.isLeaf) (id : String) :
    (foldGroup ms id).leafCount = (ms.filter (·.group == id)).length := by
  have hone : ∀ n ∈ ((ms.filter (·.group == id)).map (·.predicate)).map Predicate.leafCount,
      n = 1 := by
    intro n hn
    rw [List.map_map, List.mem_map] at hn
    obtain ⟨m, hm, rfl⟩ := hn
    exact Predicate.leafCount_of_isLeaf (h m (List.mem_of_mem_filter hm))
  rw [foldGroup, Predicate.leafCount_flat, List.sum_eq_card_nsmul _ 1 hone]
  simp

/-- No leaf is lost or duplicated. -/
theorem leafCount_foldMembers (h : ∀ m ∈ ms, m.predicate.isLeaf) :
    (foldMembers ms).leafCount = ms.length := by
  rw [foldMembers, Predicate.leafCount_flat, List.map_map, ← sum_length_groups ms]
  congr 1
  apply List.map_congr_left
  intro id _
  exact leafCount_foldGroup h id

theorem branching_foldMembers (hne : ms ≠ []) (h : ∀ m ∈ ms, m.predicate.isLeaf) :
    (foldMembers ms).Branching := by
  obtain ⟨m, hm⟩ := List.exists_mem_of_ne_nil ms hne
  have hids : groupIds ms ≠ [] := List.ne_nil_of_mem (mem_groupIds.mpr ⟨m, hm, rfl⟩)
  apply Predicate.Branching.flat (by simpa using hids)
  intro p hp
  obtain ⟨id, hid, rfl⟩ := List.mem_map.mp hp
  obtain ⟨n, hn, hg⟩ := mem_groupIds.mp hid
  have hmem : n ∈ ms.filter (·.group == id) := List.mem_filter.mpr ⟨hn, by simpa using hg⟩
  apply Predicate.Branching.flat (by simpa using List.ne_nil_of_mem hmem)
  intro q hq
  obtain ⟨k, hk, rfl⟩ := List.mem_map.mp hq
  exact .of_isLeaf (h k (List.mem_of_mem_filter hk))

theorem depth_foldMembers_le (h : ∀ m ∈ ms, m.predicate.isLeaf) : (foldMembers ms).depth ≤ 3 := by
  apply Predicate.depth_flat_le (n := 2)
  intro p hp
  obtain ⟨id, _, rfl⟩ := List.mem_map.mp hp
  apply Predicate.depth_flat_le (n := 1)
  intro q hq
  obtain ⟨m, hm, rfl⟩ := List.mem_map.mp hq
  exact (Predicate.depth_of_isLeaf (h m (List.mem_of_mem_filter hm))).le

/-! ## What folds mean -/

/-- The group of a member holds: all its members do if they are combined by AND, and some of them
    does if they are combined by OR. -/
def Member.GroupHolds (truth : Comparison → Bool) (ms : List Member) (m : Member) : Prop :=
  match m.op with
  | .and => ∀ n ∈ ms, n.group = m.group → n.predicate.eval truth
  | .or => ∃ n ∈ ms, n.group = m.group ∧ n.predicate.eval truth

/-- The fold of a group holds exactly if the group of each of its members does. -/
theorem eval_foldGroup_iff (h : Consistent (memberships ms)) {m : Member} (hm : m ∈ ms)
    (truth : Comparison → Bool) :
    (foldGroup ms m.group).eval truth ↔ m.GroupHolds truth ms := by
  have hop : operator? (memberships ms) m.group = some m.op :=
    h.operator?_eq (List.mem_map_of_mem hm)
  rw [foldGroup, hop, Option.getD_some, Predicate.eval_flat, Member.GroupHolds]
  cases m.op <;> simp [Combine.eval, or_iff_not_imp_left]

/-- A fold of consistent members holds exactly if every group does. -/
theorem eval_foldMembers_iff (h : Consistent (memberships ms)) (truth : Comparison → Bool) :
    (foldMembers ms).eval truth ↔ ∀ m ∈ ms, m.GroupHolds truth ms := by
  have hgroups : (foldMembers ms).eval truth ↔
      ∀ id ∈ groupIds ms, (foldGroup ms id).eval truth := by
    rw [foldMembers, Predicate.eval_flat]
    simp [Combine.eval]
  rw [hgroups]
  constructor
  · intro hall m hm
    exact (eval_foldGroup_iff h hm truth).mp (hall m.group (mem_groupIds.mpr ⟨m, hm, rfl⟩))
  · intro hall id hid
    obtain ⟨m, hm, rfl⟩ := mem_groupIds.mp hid
    exact (eval_foldGroup_iff h hm truth).mpr (hall m hm)

end SchemaFilter
