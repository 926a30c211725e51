import SchemaFilter.Proofs.Compile.Acceptance
import SchemaFilter.Proofs.Predicate.Truth

/-!
# The order of parameter rules

The order in which the parameter rules on an entity are declared decides in which order groups and
their members stand, and which rule opens a group. It decides nothing else: rules that declare
different operators for a group are refused in every order, and a predicate folds the same members
into a group by the same operator, whichever of them comes first.

Results:

* `eval_foldMembers_of_perm`: folds of the same members in two orders have the same truth value;
* `Filter.SameUpToOrder.compile`: filters that differ in the order of the rules on the entity are
  accepted together, and compiled to equivalent criteria.
-/

namespace SchemaFilter

variable {α : Type}

/-! ## Folds in any order -/

section

variable {ms ns : List Member}

theorem perm_memberships (h : ms.Perm ns) : (memberships ms).Perm (memberships ns) := h.map _

theorem Consistent.of_perm {ms ns : List Membership} (h : Consistent ms) (hperm : ms.Perm ns) :
    Consistent ns := by
  intro m hm n hn
  exact h m (hperm.mem_iff.mpr hm) n (hperm.mem_iff.mpr hn)

theorem Member.groupHolds_congr (h : ms.Perm ns) (truth : Comparison → Bool) (m : Member) :
    m.GroupHolds truth ms ↔ m.GroupHolds truth ns := by
  unfold GroupHolds
  cases m.op <;> simp only [h.mem_iff]

/-- Folds of the same members in two orders have the same truth value. -/
theorem eval_foldMembers_of_perm (hperm : ms.Perm ns) (h : Consistent (memberships ms))
    (truth : Comparison → Bool) : (foldMembers ms).eval truth = (foldMembers ns).eval truth := by
  rw [Bool.eq_iff_iff, eval_foldMembers_iff h,
    eval_foldMembers_iff (h.of_perm (perm_memberships hperm))]
  simp only [hperm.mem_iff, Member.groupHolds_congr hperm]

end

/-! ## Filters in two orders -/

/-- The filters differ at most in the order of the parameter rules on the entity. -/
structure Filter.SameUpToOrder (f g : Filter α) : Prop where
  entity_eq : f.entity = g.entity
  parameters_perm : f.parameters.Perm g.parameters
  relations_eq : f.relations = g.relations

namespace Filter.SameUpToOrder

variable {f g : Filter α}

theorem symm (h : f.SameUpToOrder g) : g.SameUpToOrder f where
  entity_eq := h.entity_eq.symm
  parameters_perm := h.parameters_perm.symm
  relations_eq := h.relations_eq.symm

theorem wellFormed (h : f.SameUpToOrder g) (hf : f.WellFormed) : g.WellFormed where
  rules r hr := by
    have hrules : f.rules.Perm g.rules := by
      rw [rules, rules, h.relations_eq]
      exact h.parameters_perm.append_right _
    exact hf.rules r (hrules.mem_iff.mpr hr)
  relations r hr := hf.relations r (h.relations_eq ▸ hr)

theorem fault?_eq_none (h : f.SameUpToOrder g) (hf : f.fault? = none) : g.fault? = none :=
  g.fault?_eq_none_iff.mpr (h.wellFormed (f.fault?_eq_none_iff.mp hf))

theorem perm_offers (h : f.SameUpToOrder g) (s : Schema) (root : Root) (input : α) :
    (f.offers s root input).Perm (g.offers s root input) := by
  rw [offers_eq, offers_eq, h.relations_eq]
  exact (h.parameters_perm.map _).append_right _

/-- If one filter offers members only, so does the other, and the same ones. -/
theorem exists_members (h : f.SameUpToOrder g) {s : Schema} {root : Root} {input : α}
    {ms : List Member} (ho : f.offers s root input = ms.map .ok) :
    ∃ ns : List Member, g.offers s root input = ns.map .ok ∧ ms.Perm ns := by
  have hperm := h.perm_offers s root input
  rw [ho] at hperm
  obtain ⟨ns, hns⟩ : ∃ ns : List Member, g.offers s root input = ns.map .ok := by
    rw [exists_eq_map_ok_iff]
    intro o hmem
    obtain ⟨m, -, rfl⟩ := List.mem_map.mp (hperm.mem_iff.mpr hmem)
    exact ⟨m, rfl⟩
  rw [hns] at hperm
  exact ⟨ns, hns, (List.map_perm_map_iff fun _ _ => Except.ok.inj).mp hperm⟩

theorem fst_plan_eq (h : f.SameUpToOrder g) (s : Schema) (root : Root) :
    (f.plan s root).1 = (g.plan s root).1 := by
  rw [plan, plan, h.relations_eq]

end Filter.SameUpToOrder

/-! ## Compilations -/

/-- The criteria have one root and the same joins, and their predicates have the same leaves, each
    as often in one as in the other, and are true under the same assignments. -/
structure Criteria.Equivalent (c d : Criteria) : Prop where
  root_eq : c.root = d.root
  joins_eq : c.joins = d.joins
  leaves_perm : c.predicate.comparisons.Perm d.predicate.comparisons
  eval_eq : ∀ truth, c.predicate.eval truth = d.predicate.eval truth

/-- What one filter is compiled to, the other one is compiled to an equivalent of, in any mode. -/
theorem Filter.SameUpToOrder.compile {f g : Filter α} (h : f.SameUpToOrder g) {s : Schema}
    {mode : ErrorMode} {root? : Option Root} {input : α} {criteria : Criteria}
    (hf : (Compiler.compile ⟨s, mode, root?⟩ f input).result = .ok criteria)
    (mode' : ErrorMode) :
    ∃ criteria', (Compiler.compile ⟨s, mode', root?⟩ g input).result = .ok criteria' ∧
      criteria.Equivalent criteria' := by
  obtain ⟨hfault, hroot, ms, ho, hms, hne, hjoins, hpredicate⟩ :=
    (Compiler.result_compile_eq_ok_iff ⟨s, mode, root?⟩ input).mp hf
  obtain ⟨ns, ho', hperm⟩ := h.exists_members ho
  have hroot' : Compiler.rootFor ⟨s, mode', root?⟩ g.entity = .ok criteria.root :=
    h.entity_eq ▸ hroot
  have hns : Consistent (memberships ns) := hms.of_perm (perm_memberships hperm)
  have hne' : ns ≠ [] := fun hnil => hne (List.perm_nil.mp (hnil ▸ hperm))
  refine ⟨⟨criteria.root, criteria.joins, foldMembers ns⟩, ?_, ?_⟩
  · rw [Compiler.result_compile_eq_ok_iff]
    exact ⟨h.fault?_eq_none hfault, hroot', ns, ho', hns, hne',
      hjoins.trans (h.fst_plan_eq s criteria.root), rfl⟩
  · exact {
      root_eq := rfl
      joins_eq := rfl
      leaves_perm := by
        rw [hpredicate]
        exact (perm_comparisons_foldMembers ms).trans
          ((hperm.flatMap_right _).trans (perm_comparisons_foldMembers ns).symm)
      eval_eq := fun truth => by
        rw [hpredicate]
        exact eval_foldMembers_of_perm hperm hms truth }

/-- **The order of parameter rules has no meaning.** Of two filters that differ in the order of the
    rules on the entity, one compiles exactly if the other does, in whatever mode each is compiled,
    and what they are compiled to is equivalent. -/
theorem compile_sameUpToOrder {f g : Filter α} (h : f.SameUpToOrder g) (s : Schema)
    (mode mode' : ErrorMode) (root? : Option Root) (input : α) :
    ((∃ criteria, (Compiler.compile ⟨s, mode, root?⟩ f input).result = .ok criteria) ↔
        ∃ criteria, (Compiler.compile ⟨s, mode', root?⟩ g input).result = .ok criteria) ∧
      ∀ criteria criteria',
        (Compiler.compile ⟨s, mode, root?⟩ f input).result = .ok criteria →
        (Compiler.compile ⟨s, mode', root?⟩ g input).result = .ok criteria' →
        criteria.Equivalent criteria' := by
  refine ⟨⟨?_, ?_⟩, ?_⟩
  · rintro ⟨criteria, hf⟩
    obtain ⟨criteria', hg, -⟩ := h.compile hf mode'
    exact ⟨criteria', hg⟩
  · rintro ⟨criteria, hg⟩
    obtain ⟨criteria', hf, -⟩ := h.symm.compile hg mode
    exact ⟨criteria', hf⟩
  · intro criteria criteria' hf hg
    obtain ⟨criteria'', hg', hequivalent⟩ := h.compile hf mode'
    cases hg.symm.trans hg'
    exact hequivalent

/-- The search for books with its rules on books the other way round. -/
def reversedSearch : Filter (String × Int64) :=
  { librarySearch with parameters := librarySearch.parameters.reverse }

theorem equivalent_reversedSearch :
    librarySearch.SameUpToOrder reversedSearch ∧
      ∃ criteria criteria',
        (Compiler.compile ⟨librarySchema, .failFast, none⟩ librarySearch ("Emma", 1815)).result =
          .ok criteria ∧
        (Compiler.compile ⟨librarySchema, .aggregate, none⟩ reversedSearch ("Emma", 1815)).result =
          .ok criteria' ∧
        criteria.predicate.comparisons.map (·.field.field) = ["title", "name", "year"] ∧
        criteria'.predicate.comparisons.map (·.field.field) = ["year", "title", "name"] ∧
        criteria.Equivalent criteria' := by
  have horder : librarySearch.SameUpToOrder reversedSearch :=
    ⟨rfl, (List.reverse_perm _).symm, rfl⟩
  obtain ⟨-, hequivalent⟩ :=
    compile_sameUpToOrder horder librarySchema .failFast .aggregate none ("Emma", 1815)
  exact ⟨horder, _, _, rfl, rfl, rfl, rfl, hequivalent _ _ rfl rfl⟩

end SchemaFilter
