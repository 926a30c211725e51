import SchemaFilter.Proofs.Compile.Leaves
import SchemaFilter.Proofs.NameTable

/-!
# Which filters compile

A filter compiles exactly if it is declared well, its entity and root are in order, every rule
applies where it stands, and rules of one group declare one operator. No other rule, value or mode
can make it fail, and none of its rules is skipped.

Results:

* `Filter.fault?_eq_none_iff`: the filters without a fault in their declarations;
* `Compiler.exists_rootFor_iff`: the roots that are accepted;
* `Filter.exists_offers_iff`: every step offers a member exactly if every rule applies;
* `result_compile_isOk_iff`: the filters that compile.
-/

namespace SchemaFilter

variable {α : Type}

/-! ## Declarations -/

/-- A parameter rule names a field and a group. -/
structure ParameterRule.WellFormed (r : ParameterRule α) : Prop where
  field_ne : r.field ≠ ""
  group_ne : r.group ≠ ""

/-- A relation rule has hops, which all have names, and carries a parameter rule on some of them. -/
structure RelationRule.WellFormed (r : RelationRule α) : Prop where
  hops_ne : r.hops ≠ []
  rules_ne : r.rules ≠ []
  name_ne : ∀ hop ∈ r.hops, hop.name ≠ ""

/-- All rules of a filter are declared well. -/
structure Filter.WellFormed (f : Filter α) : Prop where
  rules : ∀ r ∈ f.rules, r.WellFormed
  relations : ∀ r ∈ f.relations, r.WellFormed

theorem ParameterRule.fault?_eq_none_iff (hop : Option String) (r : ParameterRule α) :
    r.fault? hop = none ↔ r.WellFormed := by
  unfold fault?
  constructor
  · intro h
    split_ifs at h with hfield hgroup
    rw [String.isEmpty_iff] at hfield hgroup
    exact ⟨hfield, hgroup⟩
  · intro h
    rw [if_neg (by simpa using h.field_ne), if_neg (by simpa using h.group_ne)]

theorem RelationHop.fault?_eq_none_iff (relation : Nat) (hop : RelationHop α) :
    hop.fault? relation = none ↔ hop.name ≠ "" ∧ ∀ r ∈ hop.parameters, r.WellFormed := by
  unfold fault?
  by_cases h : hop.name = ""
  · rw [if_pos (by simpa using h)]
    exact iff_of_false (Option.some_ne_none _) fun hw => hw.1 h
  · rw [if_neg (by simpa using h), List.findSome?_eq_none_iff]
    simp only [ParameterRule.fault?_eq_none_iff]
    exact (and_iff_right h).symm

theorem RelationRule.mem_rules {rule : RelationRule α} {r : ParameterRule α} :
    r ∈ rule.rules ↔ ∃ hop ∈ rule.hops, r ∈ hop.parameters := List.mem_flatMap

theorem RelationRule.fault?_eq_none_iff (index : Nat) (rule : RelationRule α) :
    rule.fault? index = none ↔ rule.WellFormed ∧ ∀ r ∈ rule.rules, r.WellFormed := by
  have hcount : rule.parameterCount = 0 ↔ rule.rules = [] := List.length_eq_zero_iff
  unfold fault?
  constructor
  · intro h
    split_ifs at h with hhops hrules
    rw [List.findSome?_eq_none_iff] at h
    have hhop := fun hop hmem => (RelationHop.fault?_eq_none_iff index hop).mp (h hop hmem)
    refine ⟨⟨by simpa using hhops, mt hcount.mpr hrules, fun hop hmem => (hhop hop hmem).1⟩, ?_⟩
    intro r hr
    obtain ⟨hop, hmem, hr⟩ := mem_rules.mp hr
    exact (hhop hop hmem).2 r hr
  · rintro ⟨hw, hrules⟩
    rw [if_neg (by simpa using hw.hops_ne), if_neg (mt hcount.mp hw.rules_ne),
      List.findSome?_eq_none_iff]
    intro hop hmem
    rw [RelationHop.fault?_eq_none_iff]
    exact ⟨hw.name_ne hop hmem, fun r hr => hrules r (mem_rules.mpr ⟨hop, hmem, hr⟩)⟩

theorem relationFault?_eq_none_iff (index : Nat) (rules : List (RelationRule α)) :
    relationFault? index rules = none ↔
      ∀ rule ∈ rules, rule.WellFormed ∧ ∀ r ∈ rule.rules, r.WellFormed := by
  induction rules generalizing index with
  | nil => exact iff_of_true rfl (List.forall_mem_nil _)
  | cons rule rules ih =>
    rw [relationFault?, Option.or_eq_none_iff, rule.fault?_eq_none_iff, ih, List.forall_mem_cons]

theorem Filter.mem_rules {f : Filter α} {r : ParameterRule α} :
    r ∈ f.rules ↔ r ∈ f.parameters ∨ ∃ rule ∈ f.relations, r ∈ rule.rules := by
  rw [rules, List.mem_append, List.mem_flatMap]

/-- The filters without a fault in their declarations. -/
theorem Filter.fault?_eq_none_iff (f : Filter α) : f.fault? = none ↔ f.WellFormed := by
  rw [fault?, Option.or_eq_none_iff, List.findSome?_eq_none_iff, relationFault?_eq_none_iff]
  simp only [ParameterRule.fault?_eq_none_iff]
  constructor
  · rintro ⟨hparameters, hrelations⟩
    refine ⟨?_, fun rule hrule => (hrelations rule hrule).1⟩
    intro r hr
    rcases mem_rules.mp hr with hr | ⟨rule, hrule, hr⟩
    · exact hparameters r hr
    · exact (hrelations rule hrule).2 r hr
  · intro h
    refine ⟨fun r hr => h.rules r (mem_rules.mpr (.inl hr)), fun rule hrule => ?_⟩
    exact ⟨h.relations rule hrule, fun r hr => h.rules r (mem_rules.mpr (.inr ⟨rule, hrule, hr⟩))⟩

/-! ## Roots -/

theorem Schema.declares_iff {s : Schema} {entity : String} :
    s.declares entity ↔ ∃ m, s.model? entity = some m := NameTable.contains_iff_exists

namespace Compiler

/-- The entity is declared, and a supplied root is one of the entity. -/
structure AdmitsTarget (c : Compiler) (entity : String) : Prop where
  declared : c.schema.declares entity
  supplied : ∀ root, c.root? = some root → root.model = entity

variable {c : Compiler} {entity : String}

/-- Without a supplied root any declared entity will do. -/
theorem AdmitsTarget.of_declares {s : Schema} {mode : ErrorMode} (h : s.declares entity) :
    AdmitsTarget ⟨s, mode, none⟩ entity where
  declared := h
  supplied root hroot := by cases hroot

/-- The entities that can be compiled for. -/
theorem exists_rootFor_iff : (∃ root, c.rootFor entity = .ok root) ↔ c.AdmitsTarget entity := by
  cases hm : c.schema.model? entity with
  | none =>
    refine iff_of_false ?_ fun h => ?_
    · rintro ⟨root, h⟩
      simp only [rootFor, deriveRoot, Schema.table?, hm, Option.map_none] at h
      cases h
    · obtain ⟨m, h⟩ := Schema.declares_iff.mp h.declared
      exact Option.some_ne_none m (h.symm.trans hm)
  | some m =>
    have hdeclared := Schema.declares_iff.mpr ⟨m, hm⟩
    simp only [rootFor, deriveRoot, Schema.table?, hm, Option.map_some]
    cases hroot : c.root? with
    | none => exact iff_of_true ⟨_, rfl⟩ ⟨hdeclared, fun root h => absurd h (by simp [hroot])⟩
    | some supplied =>
      by_cases hmodel : supplied.model = entity
      · refine iff_of_true ⟨supplied, if_pos hmodel⟩ ⟨hdeclared, fun root h => ?_⟩
        rw [← Option.some.inj (hroot.symm.trans h), hmodel]
      · refine iff_of_false ?_ fun h => hmodel (h.supplied supplied hroot)
        rintro ⟨root, h⟩
        simp only [if_neg hmodel] at h
        cases h

/-- The root of a compilation is one of the filter's entity. -/
theorem model_of_rootFor {root : Root} (h : c.rootFor entity = .ok root) : root.model = entity := by
  simp only [rootFor, deriveRoot] at h
  split at h
  · cases h
  · next hd =>
    split at hd
    · cases hd
      split at h
      · cases h
        rfl
      · split_ifs at h with hmodel
        cases h
        exact hmodel
    · cases hd

end Compiler

/-! ## Offers -/

section

variable {s : Schema} {input : α}

theorem exists_eq_map_ok_iff {os : List (Except CompileError Member)} :
    (∃ ms : List Member, os = ms.map .ok) ↔ ∀ o ∈ os, ∃ m, o = .ok m := by
  constructor
  · rintro ⟨ms, rfl⟩ o ho
    obtain ⟨m, _, rfl⟩ := List.mem_map.mp ho
    exact ⟨m, rfl⟩
  · intro h
    induction os with
    | nil => exact ⟨[], rfl⟩
    | cons o os ih =>
      obtain ⟨⟨m, rfl⟩, hos⟩ := List.forall_mem_cons.mp h
      obtain ⟨ms, rfl⟩ := ih hos
      exact ⟨m :: ms, rfl⟩

theorem ParameterRule.exists_offer_iff {model qualifier : String} {r : ParameterRule α} :
    (∃ m, r.offer s model qualifier input = .ok m) ↔ r.Applies s input model := by
  simp only [offer_eq_ok_iff]
  constructor
  · rintro ⟨m, h, _⟩
    exact h
  · intro h
    obtain ⟨f, type, hf, _⟩ := id h
    exact ⟨_, h, by rw [leaf?, hf, Option.map_some]⟩

/-- The rules on a hop apply to the model that it leads to. -/
def RelationHop.Applies (s : Schema) (input : α) (hop : RelationHop α) (target : String) : Prop :=
  ∀ r ∈ hop.parameters, r.Applies s input target

/-- A relation rule applies from a model: its hops lead from there over some targets, and the rules
    on every hop apply to its target. -/
def RelationRule.Applies (s : Schema) (input : α) (model : String) (rule : RelationRule α) : Prop :=
  ∃ targets, Walks s model rule.hops targets ∧
    List.Forall₂ (RelationHop.Applies s input) rule.hops targets

/-- All rules of a filter apply where they stand. -/
structure Filter.Applies (s : Schema) (input : α) (model : String) (f : Filter α) : Prop where
  parameters : ∀ r ∈ f.parameters, r.Applies s input model
  relations : ∀ r ∈ f.relations, r.Applies s input model

theorem forall_hopOffers_iff {rule : Nat} {model : String} {walked targets : List String}
    {hops : List (RelationHop α)} (hw : Walks s model hops targets) :
    (∀ o ∈ hopOffers s input hops (chainJoins rule walked hops targets), ∃ m, o = .ok m) ↔
      List.Forall₂ (RelationHop.Applies s input) hops targets := by
  induction hw generalizing walked with
  | nil model => exact iff_of_true (List.forall_mem_nil _) .nil
  | cons head tail ih =>
    rw [chainJoins, hopOffers, List.forall_mem_append, ih, List.forall_mem_map,
      List.forall₂_cons, RelationHop.Applies]
    simp only [ParameterRule.exists_offer_iff]

theorem RelationRule.forall_offers_iff {root : Root} {index : Nat} {rule : RelationRule α} :
    (∀ o ∈ rule.offers s input root index, ∃ m, o = .ok m) ↔ rule.Applies s input root.model := by
  rcases walk_cases s root.model rule.hops with ⟨targets, hw, hok⟩ | ⟨e, hnot, herr⟩
  · rw [offers, joins, hok]
    simp only [forall_hopOffers_iff hw]
    constructor
    · exact fun h => ⟨targets, hw, h⟩
    · rintro ⟨targets', hw', h⟩
      rwa [hw.unique hw']
  · rw [offers, joins, herr]
    refine iff_of_false ?_ ?_
    · intro h
      obtain ⟨m, hm⟩ := h _ (List.mem_singleton_self _)
      cases hm
    · rintro ⟨targets, hw, _⟩
      exact hnot targets hw

/-- Every step of a filter offers a member exactly if every rule applies where it stands. -/
theorem Filter.exists_offers_iff {f : Filter α} {root : Root} :
    (∃ ms : List Member, f.offers s root input = ms.map .ok) ↔ f.Applies s input root.model := by
  rw [exists_eq_map_ok_iff, offers_eq, List.forall_mem_append, List.forall_mem_map,
    List.forall_mem_flatMap]
  simp only [ParameterRule.exists_offer_iff, RelationRule.forall_offers_iff]
  constructor
  · rintro ⟨hparameters, hrelations⟩
    refine ⟨hparameters, fun r hr => ?_⟩
    obtain ⟨i, hi⟩ := List.mem_iff_getElem?.mp hr
    exact hrelations _ (List.mk_mem_zipIdx_iff_getElem?.mpr hi)
  · intro h
    exact ⟨h.parameters, fun p hp => h.relations p.1 (List.fst_mem_of_mem_zipIdx hp)⟩

end

/-! ## Acceptance -/

/-- Rules of one group declare one operator. -/
def Filter.OperatorsAgree (f : Filter α) : Prop :=
  ∀ r ∈ f.rules, ∀ r' ∈ f.rules, r.group = r'.group → r.combine = r'.combine

/-- The filters that a compiler accepts with an input. -/
structure Compiler.Accepts (c : Compiler) (f : Filter α) (input : α) : Prop where
  wellFormed : f.WellFormed
  target : c.AdmitsTarget f.entity
  applies : f.Applies c.schema input f.entity
  operators : f.OperatorsAgree
  rules_ne : f.rules ≠ []

section

variable {s : Schema} {input : α} {f : Filter α} {root : Root} {ms : List Member}

/-- The members of a filter are consistent exactly if its rules are. -/
theorem Filter.consistent_iff_of_offers (h : f.offers s root input = ms.map .ok) :
    Consistent (memberships ms) ↔ f.OperatorsAgree := by
  rw [memberships_of_leaves (leaves_of_offers h)]
  simp only [Consistent, List.forall_mem_map, ParameterRule.membership, OperatorsAgree]

theorem Filter.ne_nil_iff_of_offers (h : f.offers s root input = ms.map .ok) :
    ms ≠ [] ↔ f.rules ≠ [] := by
  rw [← List.length_pos_iff, length_of_leaves (leaves_of_offers h), List.length_pos_iff]

end

/-- **Exact acceptance.** A filter compiles, in either mode, exactly if it is accepted. -/
theorem result_compile_isOk_iff (c : Compiler) (f : Filter α) (input : α) :
    (∃ criteria, (c.compile f input).result = .ok criteria) ↔ c.Accepts f input := by
  constructor
  · rintro ⟨criteria, h⟩
    obtain ⟨hfault, hroot, ms, ho, hms, hne, _, _⟩ := (c.result_compile_eq_ok_iff input).mp h
    exact {
      wellFormed := f.fault?_eq_none_iff.mp hfault
      target := Compiler.exists_rootFor_iff.mp ⟨_, hroot⟩
      applies := Compiler.model_of_rootFor hroot ▸ Filter.exists_offers_iff.mp ⟨ms, ho⟩
      operators := (Filter.consistent_iff_of_offers ho).mp hms
      rules_ne := (Filter.ne_nil_iff_of_offers ho).mp hne }
  · intro h
    have hfault := f.fault?_eq_none_iff.mpr h.wellFormed
    obtain ⟨root, hroot⟩ := Compiler.exists_rootFor_iff.mpr h.target
    have happlies : f.Applies c.schema input root.model :=
      (Compiler.model_of_rootFor hroot).symm ▸ h.applies
    obtain ⟨ms, ho⟩ := Filter.exists_offers_iff.mpr happlies
    have hms := (Filter.consistent_iff_of_offers ho).mpr h.operators
    have hne := (Filter.ne_nil_iff_of_offers ho).mpr h.rules_ne
    refine ⟨⟨root, (f.plan c.schema root).1, foldMembers ms⟩, ?_⟩
    rw [Compiler.result_compile_of_members c input hfault hroot ho hms, if_neg hne]

end SchemaFilter
