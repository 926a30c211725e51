import SchemaFilter.Proofs.Compile.Acceptance
import SchemaFilter.Proofs.Compile.ErrorMode

/-!
# Independent failures

A compilation that goes on after failures reports every part of a filter by itself. The parts are
the parameter rules, each with its own chain of hops if it is on one, and the relation rules that
cannot be walked. A part has the error that it has in a filter of its own; only if it has none, its
operator is compared with the one that the parts before it have fixed for its group.

Results:

* `Filter.forall₂_yields`: the verdicts of a filter are those of its parts alone;
* `errorsAfter_of_yields`: so are its errors, with the conflicts between its parts;
* `aggregate_reports_parts`: what a compilation reports.
-/

namespace SchemaFilter

variable {α : Type}

/-! ## Parts of filters -/

/-- A hop without its rules. -/
def RelationHop.bare (hop : RelationHop α) : RelationHop α := { hop with parameters := [] }

/-- A chain of hops, one of them with a single rule and the others with none. -/
def soloRelation (before : List (RelationHop α)) (hop : RelationHop α)
    (after : List (RelationHop α)) (r : ParameterRule α) : RelationRule α :=
  ⟨before.map .bare ++ { hop with parameters := [r] } :: after.map .bare⟩

/-- What a filter can fail by. -/
inductive Part (α : Type) where
  /-- A parameter rule on the entity. -/
  | direct (rule : ParameterRule α)
  /-- A relation rule that cannot be walked. -/
  | chain (rule : RelationRule α)
  /-- A parameter rule on a hop, between the hops before and after. -/
  | onHop (before : List (RelationHop α)) (hop : RelationHop α) (after : List (RelationHop α))
    (rule : ParameterRule α)

namespace Part

/-- The filter with one part only. A rule on a hop keeps all hops, but no other rule. -/
def alone (entity : String) : Part α → Filter α
  | direct r => ⟨entity, [r], []⟩
  | chain rule => ⟨entity, [], [rule]⟩
  | onHop before hop after r => ⟨entity, [], [soloRelation before hop after r]⟩

/-- The group and operator of the leaf that a part makes. -/
def membership? : Part α → Option Membership
  | direct r | onHop _ _ _ r => some r.membership
  | chain _ => none

section

variable (c : Compiler) (entity : String) (input : α)

/-- The group and operator of a part that makes a leaf in a filter of its own. -/
def built? (p : Part α) : Option Membership :=
  match (c.compile (p.alone entity) input).result with
  | .error _ => none
  | .ok _ => p.membership?

/-- The error of a part after earlier ones: what it has in a filter of its own, or the conflict with
    the first of them that makes a leaf in its group. -/
def error? (earlier : List (Part α)) (p : Part α) : Option CompileError :=
  match (c.compile (p.alone entity) input).result with
  | .error e => some e
  | .ok _ => p.membership?.bind (·.conflict? (earlier.filterMap (built? c entity input)))

end

end Part

/-- Whether hops lead from a model to somewhere. -/
def walkable (s : Schema) : (model : String) → List (RelationHop α) → Bool
  | _, [] => true
  | model, hop :: hops =>
    match hop.target? s model with
    | none => false
    | some target => walkable s target hops

/-- The parts of hops that come after others. -/
def hopParts : (before : List (RelationHop α)) → List (RelationHop α) → List (Part α)
  | _, [] => []
  | before, hop :: hops =>
    hop.parameters.map (.onHop before hop hops) ++ hopParts (before ++ [hop]) hops

/-- The parts of a relation rule from a model. -/
def RelationRule.parts (s : Schema) (model : String) (rule : RelationRule α) : List (Part α) :=
  if walkable s model rule.hops then hopParts [] rule.hops else [.chain rule]

/-- The parts of a filter, in the order of declaration. -/
def Filter.parts (f : Filter α) (s : Schema) : List (Part α) :=
  f.parameters.map .direct ++ f.relations.flatMap (·.parts s f.entity)

/-- The errors of the parts of a filter, in their order. -/
def Filter.partErrors (f : Filter α) (c : Compiler) (input : α) : List CompileError :=
  (f.parts c.schema).zipIdx.filterMap fun p =>
    p.1.error? c f.entity input ((f.parts c.schema).take p.2)

theorem walkable_iff {s : Schema} {model : String} {hops : List (RelationHop α)} :
    walkable s model hops ↔ ∃ targets, Walks s model hops targets := by
  induction hops generalizing model with
  | nil => exact iff_of_true rfl ⟨[], .nil model⟩
  | cons hop hops ih =>
    unfold walkable
    cases ht : hop.target? s model with
    | none =>
      refine iff_of_false Bool.false_ne_true ?_
      rintro ⟨_, _ | ⟨head, _⟩⟩
      exact Option.some_ne_none _ (head.symm.trans ht)
    | some target =>
      refine ih.trans ⟨?_, ?_⟩
      · rintro ⟨targets, hw⟩
        exact ⟨target :: targets, .cons ht hw⟩
      · rintro ⟨_, _ | ⟨head, tail⟩⟩
        cases head.symm.trans ht
        exact ⟨_, tail⟩

/-- The rules on hops do not matter to where these lead. -/
theorem walks_map_bare_iff {s : Schema} {model : String} {hops : List (RelationHop α)}
    {targets : List String} :
    Walks s model (hops.map .bare) targets ↔ Walks s model hops targets := by
  induction hops generalizing model targets with
  | nil =>
    constructor <;> rintro ⟨⟩ <;> exact .nil model
  | cons hop hops ih =>
    constructor
    · rintro (_ | ⟨head, tail⟩)
      exact .cons head (ih.mp tail)
    · rintro (_ | ⟨head, tail⟩)
      exact .cons head (ih.mpr tail)

/-! ## Verdicts of relation rules -/

section

variable (s : Schema) (input : α)

/-- The verdict on a rule does not depend on the table or join that it reads. -/
theorem ParameterRule.verdict_offer (r : ParameterRule α) (model qualifier qualifier' : String) :
    verdict (r.offer s model qualifier input) = verdict (r.offer s model qualifier' input) := by
  unfold offer
  cases r.check s model with
  | error e => rfl
  | ok field =>
    simp only [FieldInfo.leaf]
    cases field.scalar? with
    | none => rfl
    | some type =>
      simp only
      cases r.restriction.unmet? type (r.read input) <;> rfl

/-- The verdicts on the rules of hops with the given targets. -/
def hopVerdicts : List (RelationHop α) → List String → List (Except CompileError Membership)
  | hop :: hops, target :: targets =>
    (hop.parameters.map fun r => verdict (r.offer s target "" input)) ++ hopVerdicts hops targets
  | _, _ => []

theorem map_verdict_hopOffers (rule : Nat) (walked : List String) (hops : List (RelationHop α))
    (targets : List String) :
    (hopOffers s input hops (chainJoins rule walked hops targets)).map verdict =
      hopVerdicts s input hops targets := by
  induction hops generalizing walked targets with
  | nil => rfl
  | cons hop hops ih =>
    cases targets with
    | nil => rfl
    | cons target targets =>
      rw [chainJoins, hopOffers, hopVerdicts, List.map_append, ih, List.map_map]
      congr 1
      apply List.map_congr_left
      intro r _
      exact r.verdict_offer s input target _ ""

theorem hopVerdicts_append {before hops : List (RelationHop α)} {passed targets : List String}
    (h : before.length = passed.length) :
    hopVerdicts s input (before ++ hops) (passed ++ targets) =
      hopVerdicts s input before passed ++ hopVerdicts s input hops targets := by
  induction before generalizing passed with
  | nil =>
    cases List.length_eq_zero_iff.mp h.symm
    rfl
  | cons hop before ih =>
    cases passed with
    | nil => cases h
    | cons target passed =>
      rw [List.cons_append, List.cons_append, hopVerdicts, hopVerdicts, ih (Nat.succ.inj h),
        List.append_assoc]

theorem hopVerdicts_map_bare (hops : List (RelationHop α)) (targets : List String) :
    hopVerdicts s input (hops.map .bare) targets = [] := by
  induction hops generalizing targets with
  | nil => rfl
  | cons hop hops ih =>
    cases targets with
    | nil => rfl
    | cons target targets => exact ih targets

variable {s input} {root : Root} {rule : RelationRule α}

theorem RelationRule.map_verdict_offers {targets : List String}
    (hw : Walks s root.model rule.hops targets) (index : Nat) :
    (rule.offers s input root index).map verdict = hopVerdicts s input rule.hops targets := by
  rcases walk_cases s root.model rule.hops with ⟨targets', hw', hok⟩ | ⟨e, hnot, _⟩
  · rw [offers, joins, hok, hw.unique hw']
    exact map_verdict_hopOffers s input (index + 1) [] rule.hops targets'
  · exact absurd hw (hnot targets)

/-- A relation rule that cannot be walked fails in the same way in every place. -/
theorem RelationRule.offers_of_not_walkable (input : α)
    (hw : ¬walkable s root.model rule.hops) :
    ∃ e, ∀ index, rule.offers s input root index = [.error e] := by
  rcases walk_cases s root.model rule.hops with ⟨targets, hw', _⟩ | ⟨e, _, herr⟩
  · exact absurd (walkable_iff.mpr ⟨targets, hw'⟩) hw
  · exact ⟨e, fun index => by rw [offers, joins, herr]⟩

end

/-! ## Parts alone -/

/-- The filter with a part only is declared well and has one verdict, which is that of the part in
    every filter with it. -/
structure Part.Yields (s : Schema) (input : α) (root : Root) (p : Part α)
    (v : Except CompileError Membership) : Prop where
  wellFormed : (p.alone root.model).WellFormed
  verdicts : ((p.alone root.model).offers s root input).map verdict = [v]
  membership : ∀ m, v = .ok m → p.membership? = some m

section

variable {s : Schema} {input : α} {root : Root}

theorem Filter.wellFormed_of_parameter {entity : String} {r : ParameterRule α}
    (h : r.WellFormed) : Filter.WellFormed ⟨entity, [r], []⟩ where
  rules := by simpa [rules] using h
  relations := List.forall_mem_nil _

theorem Filter.wellFormed_of_relation {entity : String} {rule : RelationRule α}
    (h : rule.WellFormed) (hrules : ∀ r ∈ rule.rules, r.WellFormed) :
    Filter.WellFormed ⟨entity, [], [rule]⟩ where
  rules := by simpa [rules] using hrules
  relations := by simpa using h

theorem Filter.offers_of_relation (entity : String) (rule : RelationRule α) :
    Filter.offers ⟨entity, [], [rule]⟩ s root input = rule.offers s input root 0 := by
  rw [offers_eq]
  exact List.append_nil _

theorem membership_of_verdict_offer {r : ParameterRule α} {model qualifier : String}
    {m : Membership} (h : verdict (r.offer s model qualifier input) = .ok m) :
    m = r.membership := by
  cases ho : r.offer s model qualifier input with
  | error e =>
    rw [ho] at h
    cases h
  | ok member =>
    rw [ho] at h
    cases h
    exact (r.isLeafOf_leaf? s input model qualifier _ (ParameterRule.offer_eq_ok_iff.mp ho).2).1

theorem Part.yields_direct {r : ParameterRule α} (h : r.WellFormed) :
    (Part.direct r).Yields s input root (verdict (r.offer s root.model root.table input)) where
  wellFormed := Filter.wellFormed_of_parameter h
  verdicts := by
    rw [alone, Filter.offers_eq]
    rfl
  membership m hm := by rw [membership_of_verdict_offer hm, membership?]

theorem Part.yields_chain {rule : RelationRule α} (h : rule.WellFormed)
    (hrules : ∀ r ∈ rule.rules, r.WellFormed) {e : CompileError}
    (he : ∀ index, rule.offers s input root index = [.error e]) :
    (Part.chain rule).Yields s input root (.error e) where
  wellFormed := Filter.wellFormed_of_relation h hrules
  verdicts := by
    rw [alone, Filter.offers_of_relation, he]
    rfl
  membership m hm := by cases hm

section

variable {before after : List (RelationHop α)} {hop : RelationHop α} {r : ParameterRule α}

theorem map_bare_soloRelation :
    (soloRelation before hop after r).hops.map RelationHop.bare =
      (before ++ hop :: after).map RelationHop.bare := by
  have hbare : RelationHop.bare ∘ RelationHop.bare = RelationHop.bare (α := α) := rfl
  rw [soloRelation, List.map_append, List.map_cons, List.map_map, List.map_map, hbare,
    List.map_append, List.map_cons]
  rfl

theorem rules_soloRelation : (soloRelation before hop after r).rules = [r] := by
  have hnone : ∀ hops : List (RelationHop α),
      (hops.map RelationHop.bare).flatMap (·.parameters) = [] := by
    intro hops
    induction hops with
    | nil => rfl
    | cons _ _ ih => exact ih
  rw [RelationRule.rules, soloRelation, List.flatMap_append, List.flatMap_cons, hnone, hnone]
  rfl

theorem wellFormed_soloRelation (hnames : ∀ h ∈ before ++ hop :: after, h.name ≠ "") :
    (soloRelation before hop after r).WellFormed where
  hops_ne := List.append_ne_nil_of_right_ne_nil _ (List.cons_ne_nil _ _)
  rules_ne := by
    rw [rules_soloRelation]
    exact List.cons_ne_nil r []
  name_ne := by
    intro h hmem
    have hmem : h.bare ∈ (before ++ hop :: after).map RelationHop.bare :=
      map_bare_soloRelation ▸ List.mem_map_of_mem hmem
    obtain ⟨h', hmem', heq⟩ := List.mem_map.mp hmem
    have hname : h'.name = h.name := by
      show h'.bare.name = h.bare.name
      rw [heq]
    exact hname ▸ hnames h' hmem'

/-- A rule on a hop has the verdict that it has with no other rule on the hops. -/
theorem Part.yields_onHop {passed targets : List String} {target : String}
    (hw : Walks s root.model (before ++ hop :: after) (passed ++ target :: targets))
    (hlength : before.length = passed.length)
    (hnames : ∀ h ∈ before ++ hop :: after, h.name ≠ "") (h : r.WellFormed) :
    (Part.onHop before hop after r).Yields s input root (verdict (r.offer s target "" input)) where
  wellFormed := by
    refine Filter.wellFormed_of_relation (wellFormed_soloRelation hnames) ?_
    rw [rules_soloRelation]
    exact List.forall_mem_singleton.mpr h
  verdicts := by
    have hw' : Walks s root.model (soloRelation before hop after r).hops
        (passed ++ target :: targets) := by
      rwa [← walks_map_bare_iff, map_bare_soloRelation, walks_map_bare_iff]
    rw [alone, Filter.offers_of_relation, RelationRule.map_verdict_offers hw', soloRelation,
      hopVerdicts_append s input (by rwa [List.length_map]), hopVerdicts, hopVerdicts_map_bare,
      hopVerdicts_map_bare]
    rfl
  membership m hm := by rw [membership_of_verdict_offer hm, membership?]

end

end

/-! ## The verdicts of a filter -/

section

variable {s : Schema} {input : α} {root : Root}

theorem forall₂_hopParts {before hops : List (RelationHop α)} {passed targets : List String}
    (hw : Walks s root.model (before ++ hops) (passed ++ targets))
    (hlength : before.length = passed.length) (hnames : ∀ h ∈ before ++ hops, h.name ≠ "")
    (hrules : ∀ h ∈ hops, ∀ r ∈ h.parameters, r.WellFormed) :
    List.Forall₂ (Part.Yields s input root) (hopParts before hops)
      (hopVerdicts s input hops targets) := by
  -- the walk is that of all hops: a rule alone still needs the hops before and after its own
  induction hops generalizing before passed targets with
  | nil => exact .nil
  | cons hop hops ih =>
    obtain _ | ⟨target, targets⟩ := targets
    · have hlength' := hw.length_eq
      simp only [List.length_append, List.length_cons, List.length_nil] at hlength'
      omega
    · have happend : before ++ hop :: hops = (before ++ [hop]) ++ hops := List.append_cons _ _ _
      have happend' : passed ++ target :: targets = (passed ++ [target]) ++ targets :=
        List.append_cons _ _ _
      rw [hopParts, hopVerdicts]
      refine List.rel_append ?_ (ih (happend ▸ happend' ▸ hw) (by simpa using hlength)
        (happend ▸ hnames) fun h hmem => hrules h (List.mem_cons_of_mem hop hmem))
      rw [List.forall₂_map_left_iff, List.forall₂_map_right_iff, List.forall₂_same]
      intro r hr
      exact Part.yields_onHop hw hlength hnames (hrules hop List.mem_cons_self r hr)

theorem RelationRule.forall₂_yields {rule : RelationRule α} (h : rule.WellFormed)
    (hrules : ∀ r ∈ rule.rules, r.WellFormed) (index : Nat) :
    List.Forall₂ (Part.Yields s input root) (rule.parts s root.model)
      ((rule.offers s input root index).map verdict) := by
  unfold parts
  split_ifs with hw
  · obtain ⟨targets, hw⟩ := walkable_iff.mp hw
    rw [map_verdict_offers hw]
    have hhops := fun hop hmem r hr => hrules r (mem_rules.mpr ⟨hop, hmem, hr⟩)
    have hw : Walks s root.model ([] ++ rule.hops) ([] ++ targets) := hw
    exact forall₂_hopParts hw rfl h.name_ne hhops
  · obtain ⟨e, he⟩ := offers_of_not_walkable input hw
    rw [he]
    exact .cons (Part.yields_chain h hrules he) .nil

/-- The verdicts of a filter are those of its parts alone. -/
theorem Filter.forall₂_yields {f : Filter α} (hf : f.WellFormed) (hroot : root.model = f.entity) :
    List.Forall₂ (Part.Yields s input root) (f.parts s) ((f.offers s root input).map verdict) := by
  rw [offers_eq, parts, ← hroot, List.map_append, List.map_map, List.map_flatMap]
  refine List.rel_append ?_ (List.rel_flatMap (forall₂_zipIdx f.relations 0) ?_)
  · rw [List.forall₂_map_left_iff, List.forall₂_map_right_iff, List.forall₂_same]
    intro r hr
    exact Part.yields_direct (hf.rules r (mem_rules.mpr (.inl hr)))
  · rintro rule p ⟨hrule, rfl⟩
    have hrules := fun r hr => hf.rules r (mem_rules.mpr (.inr ⟨p.1, hrule, hr⟩))
    exact RelationRule.forall₂_yields (hf.relations p.1 hrule) hrules p.2

end

/-! ## Errors of parts -/

theorem Part.entity_alone (entity : String) (p : Part α) : (p.alone entity).entity = entity := by
  cases p <;> rfl

section

variable {c : Compiler} {input : α} {root : Root}

namespace Part.Yields

variable {p : Part α} {v : Except CompileError Membership}

/-- A part whose verdict is an error fails alone with that error. -/
theorem result_of_error (hroot : c.rootFor root.model = .ok root) {e : CompileError}
    (h : p.Yields c.schema input root (.error e)) :
    (c.compile (p.alone root.model) input).result = .error e := by
  have hfault := (p.alone root.model).fault?_eq_none_iff.mpr h.wellFormed
  have hroot' := (p.entity_alone root.model).symm ▸ hroot
  apply c.result_compile_of_errors input hfault hroot'
  rw [Filter.errors, h.verdicts]
  cases c.mode <;> rfl

/-- A part whose verdict is a membership compiles alone. -/
theorem result_of_ok (hroot : c.rootFor root.model = .ok root) {m : Membership}
    (h : p.Yields c.schema input root (.ok m)) :
    ∃ criteria, (c.compile (p.alone root.model) input).result = .ok criteria := by
  have hfault := (p.alone root.model).fault?_eq_none_iff.mpr h.wellFormed
  have hroot' := (p.entity_alone root.model).symm ▸ hroot
  have herrors : (p.alone root.model).errors c.schema root input = [] := by
    rw [Filter.errors, h.verdicts]
    rfl
  obtain ⟨ms, ho, hms⟩ := (Filter.errors_eq_nil_iff _ _ _ _).mp herrors
  have hne : ms ≠ [] := by
    rintro rfl
    have hverdicts := h.verdicts
    rw [ho] at hverdicts
    cases hverdicts
  rw [c.result_compile_of_members input hfault hroot' ho hms, if_neg hne]
  exact ⟨_, rfl⟩

theorem error?_of_error (hroot : c.rootFor root.model = .ok root) {e : CompileError}
    (h : p.Yields c.schema input root (.error e)) (earlier : List (Part α)) :
    p.error? c root.model input earlier = some e := by
  rw [error?, h.result_of_error hroot]

theorem error?_of_ok (hroot : c.rootFor root.model = .ok root) {m : Membership}
    (h : p.Yields c.schema input root (.ok m)) (earlier : List (Part α)) :
    p.error? c root.model input earlier =
      m.conflict? (earlier.filterMap (built? c root.model input)) := by
  obtain ⟨criteria, hok⟩ := h.result_of_ok hroot
  rw [error?, hok, h.membership m rfl]
  rfl

theorem built?_eq (hroot : c.rootFor root.model = .ok root) (h : p.Yields c.schema input root v) :
    p.built? c root.model input = v.toOption := by
  unfold built?
  cases v with
  | error e =>
    rw [h.result_of_error hroot]
    rfl
  | ok m =>
    obtain ⟨criteria, hok⟩ := h.result_of_ok hroot
    rw [hok]
    exact h.membership m rfl

end Part.Yields

/-- The errors of verdicts are those of the parts that yield them, each after the parts before. -/
theorem errorsAfter_of_yields (hroot : c.rootFor root.model = .ok root) {ps : List (Part α)}
    {vs : List (Except CompileError Membership)}
    (h : List.Forall₂ (Part.Yields c.schema input root) ps vs) (earlier : List (Part α)) :
    errorsAfter (earlier.filterMap (Part.built? c root.model input)) vs =
      (ps.zipIdx earlier.length).filterMap fun p =>
        p.1.error? c root.model input ((earlier ++ ps).take p.2) := by
  -- the earlier parts that build a leaf alone are the members of the run so far
  induction h generalizing earlier with
  | nil => rfl
  | @cons p v ps vs head tail ih =>
    have hbuilt : (earlier ++ [p]).filterMap (Part.built? c root.model input) =
        earlier.filterMap (Part.built? c root.model input) ++ v.toOption.toList := by
      rw [List.filterMap_append, List.filterMap_cons, head.built?_eq hroot]
      cases v <;> rfl
    have ih := ih (earlier ++ [p])
    rw [← List.append_cons, List.length_append, List.length_singleton, hbuilt] at ih
    have htake : (earlier ++ p :: ps).take earlier.length = earlier := List.take_left
    rw [List.zipIdx_cons, List.filterMap_cons, ← ih]
    simp only [htake]
    cases v with
    | error e =>
      rw [head.error?_of_error hroot, errorsAfter]
      exact congrArg (e :: errorsAfter · vs) (List.append_nil _).symm
    | ok m =>
      rw [head.error?_of_ok hroot, errorsAfter]
      cases m.conflict? (earlier.filterMap (Part.built? c root.model input)) <;> rfl

end

/-! ## Reports -/

/-- The errors of a filter are those of its parts. -/
theorem Filter.errors_eq_partErrors {f : Filter α} {c : Compiler} {root : Root} (input : α)
    (hf : f.WellFormed) (hroot : c.rootFor f.entity = .ok root) :
    f.errors c.schema root input = f.partErrors c input := by
  have hmodel := Compiler.model_of_rootFor hroot
  rw [partErrors, ← hmodel]
  exact errorsAfter_of_yields (hmodel.symm ▸ hroot) (forall₂_yields hf hmodel) []

theorem Filter.parts_eq_nil_iff {f : Filter α} (s : Schema) (input : α) {root : Root}
    (hf : f.WellFormed) (hroot : root.model = f.entity) :
    f.parts s = [] ↔ f.offers s root input = [] := by
  have hall : List.Forall₂ (Part.Yields s input root) (f.parts s)
      ((f.offers s root input).map verdict) := forall₂_yields hf hroot
  have hlength := hall.length_eq
  rw [List.length_map] at hlength
  rw [← List.length_eq_zero_iff, hlength, List.length_eq_zero_iff]

/-- **Independent failures.** Of a filter that is declared well, with its entity and root in order,
    a compilation that goes on reports exactly the errors of its parts: one alone as it is, and
    several as an aggregate with their number, which holds no other. Without errors the filter
    compiles, if it has any part. -/
theorem aggregate_reports_parts {c : Compiler} {f : Filter α} (input : α)
    (hmode : c.mode = .aggregate) (hf : f.WellFormed) (ht : c.AdmitsTarget f.entity) :
    (f.partErrors c input = [] → f.parts c.schema ≠ [] →
        ∃ criteria, (c.compile f input).result = .ok criteria) ∧
      (f.parts c.schema = [] → (c.compile f input).result = .error (.emptyCompilation f.entity)) ∧
      (∀ e, f.partErrors c input = [e] → (c.compile f input).result = .error e) ∧
      (2 ≤ (f.partErrors c input).length →
        (c.compile f input).result =
          .error (.aggregate (f.partErrors c input).length (f.partErrors c input))) ∧
      ∀ e ∈ f.partErrors c input, e.Elementary := by
  have hfault := f.fault?_eq_none_iff.mpr hf
  obtain ⟨root, hroot⟩ := Compiler.exists_rootFor_iff.mpr ht
  have hmodel := Compiler.model_of_rootFor hroot
  rw [← Filter.errors_eq_partErrors input hf hroot]
  have hreport : ∀ e, CompileError.collect (f.errors c.schema root input) = some e →
      (c.compile f input).result = .error e := by
    intro e he
    apply c.result_compile_of_errors input hfault hroot
    rw [hmode]
    exact he
  refine ⟨?_, ?_, ?_, ?_, fun e he => Filter.elementary_of_mem_errors he⟩
  · intro hes hparts
    obtain ⟨ms, ho, hms⟩ := (f.errors_eq_nil_iff c.schema root input).mp hes
    rw [ne_eq, Filter.parts_eq_nil_iff c.schema input hf hmodel, ho, List.map_eq_nil_iff] at hparts
    rw [c.result_compile_of_members input hfault hroot ho hms, if_neg hparts]
    exact ⟨_, rfl⟩
  · intro hparts
    have ho : f.offers c.schema root input = ([] : List Member).map .ok :=
      (Filter.parts_eq_nil_iff c.schema input hf hmodel).mp hparts
    rw [c.result_compile_of_members input hfault hroot ho .nil, if_pos rfl]
  · intro e hes
    exact hreport e (by rw [hes, CompileError.collect])
  · intro htwo
    apply hreport
    generalize f.errors c.schema root input = es at htwo ⊢
    obtain _ | ⟨e, _ | ⟨e', es⟩⟩ := es
    · exact absurd htwo (by decide)
    · exact absurd htwo (by simp)
    · rfl

/-- Without rules there are no errors of parts, and yet no predicate. -/
theorem not_compile_without_rules :
    let c : Compiler := ⟨librarySchema, .aggregate, none⟩
    let f : Filter (String × Int64) := ⟨"Book", [], []⟩
    f.WellFormed ∧ c.AdmitsTarget f.entity ∧ f.partErrors c ("Emma", 1815) = [] ∧
      ¬∃ criteria, (c.compile f ("Emma", 1815)).result = .ok criteria := by
  refine ⟨⟨List.forall_mem_nil _, List.forall_mem_nil _⟩, .of_declares rfl, rfl, ?_⟩
  rintro ⟨criteria, h⟩
  cases h

/-- The search for books with a year of the wrong type, an author's name under another operator, and
    a relation that books do not have. -/
def faultySearch : Filter (String × Int64) where
  entity := "Book"
  parameters := [
    ⟨"title", .equals, "text", .or, .single .string, fun q => .string q.1⟩,
    ⟨"year", .equals, "since", .and, .single .string, fun q => .string q.1⟩]
  relations := [
    ⟨[⟨"author", .single,
      [⟨"name", .equals, "text", .and, .single .string, fun q => .string q.1⟩]⟩]⟩,
    ⟨[⟨"publisher", .single,
      [⟨"name", .equals, "text", .or, .single .string, fun q => .string q.1⟩]⟩]⟩]

theorem aggregate_faultySearch :
    (Compiler.compile ⟨librarySchema, .aggregate, none⟩ faultySearch ("Emma", 1815)).result =
      .error (.aggregate 3 [
        .typeMismatch "Book" "year" (.type (.single .int)) (.type (.single .string)),
        .configurationConflict "text" .or .and,
        .structuralMismatch "Book" "publisher"
          (.notFound (.unknownField "Book" "publisher"))]) := by
  have hfault : faultySearch.fault? = none := rfl
  have ht : Compiler.AdmitsTarget ⟨librarySchema, .aggregate, none⟩ faultySearch.entity :=
    .of_declares rfl
  obtain ⟨_, _, _, haggregate, _⟩ := aggregate_reports_parts ("Emma", 1815) rfl
    (faultySearch.fault?_eq_none_iff.mp hfault) ht
  exact haggregate (by decide)

end SchemaFilter
