import SchemaFilter.Proofs.Compile.Places

/-!
# Values that are read

A compilation reads the values of its rules in the order of declaration, and each at most once. It
reads the value of a rule exactly if it reaches the rule, the hops to it can be walked, and the rule
passes its check; what the value is, or where it goes, comes after. A compilation that goes on after
failures reaches all rules, and one that stops those up to the first that fails.

Main definition:

* `upToFailure`: rules up to the first that fails after those before it.

Results:

* `Filter.carriesOut_plan`: the steps of a filter carry out its rules;
* `Grouping.Took.take_offer`: when groups refuse a rule, after rules that they took;
* `CarriesOut.reads_aggregate`, `CarriesOut.reads_failFast`: the reads of a run, in both modes;
* `reads_checked_rules`: the reads of a compilation.
-/

namespace SchemaFilter

variable {α : Type}

/-! ## Rules that are checked, fail, and are reached -/

/-- A rule applies to a model exactly if it offers a member there, which can be found out. -/
instance ParameterRule.decidableApplies (s : Schema) (input : α) (model : String)
    (r : ParameterRule α) : Decidable (r.Applies s input model) :=
  decidable_of_iff ((r.offer s model "" input).toOption.isSome) <| by
    have hoffer : (∃ m, r.offer s model "" input = .ok m) ↔ r.Applies s input model :=
      exists_offer_iff
    rw [← hoffer, Option.isSome_iff_exists]
    refine exists_congr fun m => ?_
    cases r.offer s model "" input <;> simp [Except.toOption]

namespace PlacedRule

/-- The rule stands on a model and passes its check there. -/
def isChecked (s : Schema) (p : PlacedRule α) : Bool :=
  p.model?.any fun model => (p.rule.check s model).isOk

variable (s : Schema) (input : α)

/-- The rule applies to the model that it stands on. -/
def Applies (p : PlacedRule α) : Prop := ∃ model ∈ p.model?, p.rule.Applies s input model

/-- The rule fails after earlier ones: it does not apply, or one of them declares another operator
    for its group. -/
def Fails (earlier : List (PlacedRule α)) (p : PlacedRule α) : Prop :=
  ¬p.Applies s input ∨
    ∃ q ∈ earlier, q.rule.group = p.rule.group ∧ q.rule.combine ≠ p.rule.combine

instance (p : PlacedRule α) : Decidable (p.Applies s input) :=
  inferInstanceAs (Decidable (∃ model ∈ p.model?, p.rule.Applies s input model))

instance (earlier : List (PlacedRule α)) (p : PlacedRule α) : Decidable (p.Fails s input earlier) :=
  inferInstanceAs (Decidable (_ ∨ _))

end PlacedRule

section

variable (s : Schema) (input : α)

/-- The rules up to the first that fails after those before it, that one included. -/
def upToFailure : (earlier : List (PlacedRule α)) → List (PlacedRule α) → List (PlacedRule α)
  | _, [] => []
  | earlier, p :: ps =>
    p :: if p.Fails s input earlier then [] else upToFailure (earlier ++ [p]) ps

/-- The rules that a compilation reaches. -/
def Filter.reached (f : Filter α) : ErrorMode → List (PlacedRule α)
  | .failFast => upToFailure s input [] (f.placedRules s)
  | .aggregate => f.placedRules s

/-- The places of those rules that are checked. -/
def checkedPlaces (ps : List (PlacedRule α)) : List Place :=
  (ps.filter (·.isChecked s)).map (·.place)

theorem upToFailure_isPrefix (earlier ps : List (PlacedRule α)) :
    upToFailure s input earlier ps <+: ps := by
  induction ps generalizing earlier with
  | nil => exact List.prefix_rfl
  | cons p ps ih =>
    rw [upToFailure, List.prefix_cons_inj]
    split_ifs
    · exact List.nil_prefix
    · exact ih _

theorem checkedPlaces_append (ps qs : List (PlacedRule α)) :
    checkedPlaces s (ps ++ qs) = checkedPlaces s ps ++ checkedPlaces s qs := by
  rw [checkedPlaces, List.filter_append, List.map_append]
  rfl

theorem checkedPlaces_cons (p : PlacedRule α) (ps : List (PlacedRule α)) :
    checkedPlaces s (p :: ps) = checkedPlaces s [p] ++ checkedPlaces s ps :=
  checkedPlaces_append s [p] ps

/-- Rules that stand on no model are not checked. -/
theorem checkedPlaces_eq_nil {ps : List (PlacedRule α)} (h : ∀ p ∈ ps, p.model? = none) :
    checkedPlaces s ps = [] := by
  have hfilter : ps.filter (·.isChecked s) = [] := by
    rw [List.filter_eq_nil_iff]
    intro p hp
    simp [PlacedRule.isChecked, h p hp]
  rw [checkedPlaces, hfilter, List.map_nil]

end

/-! ## Steps that carry out rules -/

/-- Steps carry out rules: one each, or one failing step for some rules that stand on no model. -/
inductive CarriesOut : List (PlacedRule α) → List (Step α) → Prop where
  | nil : CarriesOut [] []
  | apply {place : Place} {model qualifier : String} {rule : ParameterRule α}
    {ps : List (PlacedRule α)} {steps : List (Step α)} (tail : CarriesOut ps steps) :
    CarriesOut (⟨place, some model, rule⟩ :: ps) (.apply place model qualifier rule :: steps)
  | fail {error : CompileError} {p : PlacedRule α} {ps qs : List (PlacedRule α)}
    {steps : List (Step α)} (nowhere : ∀ q ∈ p :: ps, q.model? = none)
    (tail : CarriesOut qs steps) : CarriesOut (p :: ps ++ qs) (.fail error :: steps)

theorem CarriesOut.append {ps qs : List (PlacedRule α)} {steps steps' : List (Step α)}
    (h : CarriesOut ps steps) (h' : CarriesOut qs steps') :
    CarriesOut (ps ++ qs) (steps ++ steps') := by
  induction h with
  | nil => exact h'
  | apply tail ih => exact .apply ih
  | fail nowhere tail ih =>
    rw [List.append_assoc, List.cons_append]
    exact .fail nowhere ih

theorem carriesOut_ruleSteps (place : Nat → Place) (model qualifier : String)
    (rules : List (ParameterRule α)) :
    CarriesOut (placeRules place (some model) rules) (ruleSteps place model qualifier rules) := by
  induction rules generalizing place with
  | nil => exact .nil
  | cons r rules ih =>
    rw [placeRules, ruleSteps, List.mapIdx_cons, List.mapIdx_cons]
    exact .apply (ih fun i => place (i + 1))

section

variable {s : Schema}

/-- Where the targets of hops are those from an index on, the steps of the hops carry out their
    rules. -/
theorem carriesOut_hopSteps {model : String} {hops : List (RelationHop α)} {targets : List String}
    (hw : Walks s model hops targets) (relation rule hop : Nat) (walked : List String)
    (target? : Nat → Option String) (htarget : ∀ k, target? (hop + k) = targets[k]?) :
    CarriesOut
      ((hops.zipIdx hop).flatMap fun p =>
        placeRules (.onHop relation p.2) (target? p.2) p.1.parameters)
      (hopSteps relation hop hops (chainJoins rule walked hops targets)) := by
  induction hw generalizing hop walked with
  | nil model => exact .nil
  | @cons model target first hops targets head tail ih =>
    have hfirst : target? hop = some target := htarget 0
    rw [List.zipIdx_cons, List.flatMap_cons, chainJoins, hopSteps, hfirst]
    refine (carriesOut_ruleSteps _ _ _ _).append (ih (hop + 1) _ fun k => ?_)
    rw [Nat.add_right_comm]
    exact htarget (k + 1)

/-- The steps of a relation rule carry out its rules. -/
theorem RelationRule.carriesOut_steps {r : RelationRule α} (h : r.rules ≠ []) (root : Root)
    (index : Nat) : CarriesOut (r.placedRules s root.model index) (r.steps s root index) := by
  rw [steps, joins]
  rcases walk_cases s root.model r.hops with ⟨targets, hw, hok⟩ | ⟨e, hnot, herr⟩
  · rw [hok, placedRules, hopTargets?_eq_some_iff.mpr hw]
    refine carriesOut_hopSteps hw index (index + 1) 0 []
      (fun hop => (some targets).bind (·[hop]?)) fun k => ?_
    rw [Nat.zero_add, Option.bind_some]
  · have hnone : hopTargets? s root.model r.hops = none := by
      rw [Option.eq_none_iff_forall_ne_some]
      exact fun targets ht => hnot targets (hopTargets?_eq_some_iff.mp ht)
    have hnowhere : ∀ p ∈ r.placedRules s root.model index, p.model? = none := by
      intro p hp
      rw [placedRules, hnone] at hp
      obtain ⟨q, _, hp⟩ := List.mem_flatMap.mp hp
      obtain ⟨i, hi, rfl⟩ := List.mem_mapIdx.mp hp
      rfl
    rw [herr]
    cases hps : r.placedRules s root.model index with
    | nil => exact absurd (by rw [← map_rule_placedRules s root.model index, hps]; rfl) h
    | cons p ps =>
      rw [← List.append_nil (p :: ps)]
      exact .fail (hps ▸ hnowhere) .nil

/-- The steps of a filter carry out its rules. -/
theorem Filter.carriesOut_plan {f : Filter α} (h : f.WellFormed) {root : Root}
    (hroot : root.model = f.entity) : CarriesOut (f.placedRules s) (f.plan s root).2 := by
  have hrelations : ∀ index, CarriesOut
      ((f.relations.zipIdx index).flatMap fun p => p.1.placedRules s root.model p.2)
      (relationSteps s root index f.relations).2 := by
    have hrules : ∀ r ∈ f.relations, r.rules ≠ [] := fun r hr => (h.relations r hr).rules_ne
    generalize f.relations = rs at hrules
    induction rs with
    | nil => exact fun _ => .nil
    | cons r rs ih =>
      intro index
      obtain ⟨hr, hrs⟩ := List.forall_mem_cons.mp hrules
      rw [snd_relationSteps_cons, List.zipIdx_cons, List.flatMap_cons]
      exact (r.carriesOut_steps hr root index).append (ih hrs (index + 1))
  rw [snd_plan, placedRules, ← hroot]
  exact (carriesOut_ruleSteps _ _ _ _).append (hrelations 0)

end

/-! ## Reads of runs -/

section

variable {s : Schema} {input : α} {g : Grouping} {ps : List (PlacedRule α)} {steps : List (Step α)}

/-- A step reads the value of its rule exactly if the rule is checked. -/
theorem Step.reads_apply (s : Schema) (place : Place) (model qualifier : String)
    (rule : ParameterRule α) :
    Step.reads s (.apply place model qualifier rule) =
      checkedPlaces s [⟨place, some model, rule⟩] := by
  cases hc : rule.check s model <;>
    simp [Step.reads, checkedPlaces, PlacedRule.isChecked, hc, Except.isOk, Except.toBool]

/-- All steps read the values of all rules that are checked. -/
theorem CarriesOut.flatMap_reads (h : CarriesOut ps steps) :
    steps.flatMap (Step.reads s) = checkedPlaces s ps := by
  induction h with
  | nil => rfl
  | apply tail ih => rw [List.flatMap_cons, Step.reads_apply, ih, ← checkedPlaces_cons]
  | fail nowhere tail ih =>
    rw [List.flatMap_cons, ih, checkedPlaces_append, checkedPlaces_eq_nil s nowhere, Step.reads]

/-- A run that goes on after failures reads the values of all rules that are checked. -/
theorem CarriesOut.reads_aggregate (h : CarriesOut ps steps) (start : Progress) :
    (runSteps .aggregate s input start steps).reads = start.reads ++ checkedPlaces s ps := by
  rw [reads_runSteps_aggregate, h.flatMap_reads]

/-- A membership after consistent ones makes them inconsistent exactly if one of them declares
    another operator for its group. -/
theorem Consistent.not_concat_iff {ms : List Membership} (h : Consistent ms) (m : Membership) :
    ¬Consistent (ms ++ [m]) ↔ ∃ n ∈ ms, n.group = m.group ∧ n.op ≠ m.op := by
  constructor
  · intro hnot
    rw [← h.conflict?_eq_none_iff, ← Ne, Option.ne_none_iff_exists'] at hnot
    obtain ⟨e, he⟩ := hnot
    obtain ⟨first, hfirst, hne, _⟩ := Membership.conflict?_eq_some_iff.mp he
    obtain ⟨n, hn, hg, rfl⟩ := exists_mem_of_operator? hfirst
    exact ⟨n, hn, hg, hne⟩
  · rintro ⟨n, hn, hg, hop⟩ hc
    exact hop (hc n (List.mem_append_left _ hn) m
      (List.mem_append_right _ (List.mem_singleton_self m)) hg)

theorem PlacedRule.fails_iff {earlier : List (PlacedRule α)} {p : PlacedRule α}
    (h : Consistent (earlier.map (·.rule.membership))) :
    p.Fails s input earlier ↔
      ¬p.Applies s input ∨
        ¬Consistent (earlier.map (·.rule.membership) ++ [p.rule.membership]) := by
  rw [h.not_concat_iff, Fails]
  refine or_congr_right ?_
  constructor
  · rintro ⟨q, hq, hother⟩
    exact ⟨q.rule.membership, List.mem_map.mpr ⟨q, hq, rfl⟩, hother⟩
  · rintro ⟨n, hn, hother⟩
    obtain ⟨q, hq, rfl⟩ := List.mem_map.mp hn
    exact ⟨q, hq, hother⟩

/-- The groups are those of members that some rules made, and that agree on their operators. -/
def Grouping.Took (g : Grouping) (rules : List (PlacedRule α)) : Prop :=
  ∃ ms, g.groups.items = groupsOf ms ∧ memberships ms = rules.map (·.rule.membership) ∧
    Consistent (memberships ms)

theorem Grouping.took_empty : Grouping.empty.Took ([] : List (PlacedRule α)) :=
  ⟨[], rfl, rfl, .nil⟩

variable (s input) in
/-- After rules that were taken the groups refuse the offer of a rule if it fails after them; else
    the rule is taken as well. -/
theorem Grouping.Took.take_offer {earlier : List (PlacedRule α)} (h : g.Took earlier) (place : Place)
    (model qualifier : String) (rule : ParameterRule α) :
    (∃ e, g.take (rule.offer s model qualifier input) = (.error e, g) ∧
        PlacedRule.Fails s input earlier ⟨place, some model, rule⟩) ∨
      ∃ g', g.take (rule.offer s model qualifier input) = (.ok (), g') ∧
        ¬PlacedRule.Fails s input earlier ⟨place, some model, rule⟩ ∧
        g'.Took (earlier ++ [⟨place, some model, rule⟩]) := by
  obtain ⟨ms, hg, hms, hc⟩ := h
  have hfails : PlacedRule.Fails s input earlier ⟨place, some model, rule⟩ ↔
      ¬PlacedRule.Applies s input ⟨place, some model, rule⟩ ∨
        ¬Consistent (memberships ms ++ [rule.membership]) := by
    rw [hms] at hc ⊢
    exact PlacedRule.fails_iff hc
  cases ho : rule.offer s model qualifier input with
  | error e =>
    refine .inl ⟨e, rfl, hfails.mpr (.inl ?_)⟩
    rintro ⟨_, ⟨⟩, happlies⟩
    obtain ⟨m, hm⟩ := ParameterRule.exists_offer_iff.mpr happlies
    rw [ho] at hm
    cases hm
  | ok m =>
    have happlies : PlacedRule.Applies s input ⟨place, some model, rule⟩ :=
      ⟨model, rfl, ParameterRule.exists_offer_iff.mp ⟨m, ho⟩⟩
    have hm : m.toMembership = rule.membership :=
      (rule.isLeafOf_leaf? s input model qualifier m (ParameterRule.offer_eq_ok_iff.mp ho).2).1
    have hconsistent := hc.conflict?_eq_none_iff m.toMembership
    rw [hm] at hconsistent
    cases hconflict : m.conflict? (memberships ms) with
    | some e =>
      refine .inl ⟨e, (Grouping.push_conflict hg hconflict).1, hfails.mpr (.inr ?_)⟩
      rw [← hconsistent, ← hm, hconflict]
      exact Option.some_ne_none e
    | none =>
      obtain ⟨g', hpush, hg'⟩ := Grouping.push_agreeing hg hconflict
      have hagree := hconsistent.mp (hm ▸ hconflict)
      have hmembers : memberships (ms ++ [m]) = memberships ms ++ [rule.membership] := by
        rw [memberships_append, memberships_singleton, hm]
      refine .inr ⟨g', hpush, ?_, ms ++ [m], hg', ?_, hmembers ▸ hagree⟩
      · rw [hfails]
        exact not_or.mpr ⟨not_not_intro happlies, not_not_intro hagree⟩
      · rw [hmembers, hms, List.map_append]
        rfl

/-- A run that stops at the first failure, after some rules were taken, reads the values of those
    rules that are checked and reached. -/
theorem CarriesOut.reads_failFast (h : CarriesOut ps steps) {start : Progress}
    {earlier : List (PlacedRule α)} (hg : start.groups.Took earlier) :
    (runSteps .failFast s input start steps).reads =
      start.reads ++ checkedPlaces s (upToFailure s input earlier ps) := by
  induction h generalizing start earlier with
  | nil => exact (List.append_nil _).symm
  | @apply place model qualifier rule ps steps tail ih =>
    have hrun := Step.runFrom_run s input start (.apply place model qualifier rule)
    rw [Step.offer, Step.reads_apply] at hrun
    obtain ⟨e, htake, hfails⟩ | ⟨g', htake, hfails, hg'⟩ :=
      hg.take_offer s input place model qualifier rule
    · rw [htake] at hrun
      rw [runSteps_cons_error hrun, upToFailure, if_pos hfails]
    · rw [htake] at hrun
      have hnext : (Progress.mk (start.reads ++ checkedPlaces s [⟨place, some model, rule⟩])
          g').groups.Took (earlier ++ [⟨place, some model, rule⟩]) := hg'
      rw [runSteps_cons_ok hrun, upToFailure, if_neg hfails,
        checkedPlaces_cons s _ (upToFailure s input _ ps), ← List.append_assoc]
      exact ih hnext
  | @fail error p ps qs steps nowhere tail ih =>
    have hp : p.model? = none := nowhere p List.mem_cons_self
    have hfails : p.Fails s input earlier := by
      refine .inl ?_
      rintro ⟨model, hmodel, _⟩
      rw [hp] at hmodel
      cases hmodel
    have hrun := Step.runFrom_run s input start (.fail error : Step α)
    rw [Step.offer, Step.reads, List.append_nil, Grouping.take] at hrun
    rw [runSteps_cons_error hrun, List.cons_append, upToFailure, if_pos hfails,
      checkedPlaces_eq_nil s (List.forall_mem_singleton.mpr hp), List.append_nil]

/-- Where every step offers a member, every rule is checked. -/
theorem CarriesOut.forall_isChecked (h : CarriesOut ps steps)
    (ho : ∀ step ∈ steps, ∃ m, step.offer s input = .ok m) : ∀ p ∈ ps, p.isChecked s := by
  induction h with
  | nil => exact List.forall_mem_nil _
  | @apply place model qualifier rule ps steps tail ih =>
    obtain ⟨⟨m, hm⟩, ho⟩ := List.forall_mem_cons.mp ho
    refine List.forall_mem_cons.mpr ⟨?_, ih ho⟩
    rw [Step.offer, ParameterRule.offer] at hm
    cases hc : rule.check s model with
    | error e =>
      rw [hc] at hm
      cases hm
    | ok field => simp [PlacedRule.isChecked, hc, Except.isOk, Except.toBool]
  | fail nowhere tail ih =>
    obtain ⟨⟨m, hm⟩, _⟩ := List.forall_mem_cons.mp ho
    cases hm

end

/-! ## Reads of compilations -/

namespace Compiler

/-- What a compilation reads. -/
structure ReadsRules (c : Compiler) (f : Filter α) (input : α) : Prop where
  /-- Nothing is read of a filter that is not declared well, or whose entity or root is not in
      order. -/
  refused : ¬(f.WellFormed ∧ c.AdmitsTarget f.entity) → (c.compile f input).reads = []
  /-- Of another one the rules are read that are reached and checked, in their order. -/
  admitted : f.WellFormed → c.AdmitsTarget f.entity →
    (c.compile f input).reads = checkedPlaces c.schema (f.reached c.schema input c.mode)
  once : (c.compile f input).reads.Nodup
  checked : ∀ p ∈ f.placedRules c.schema, p.place ∈ (c.compile f input).reads →
    p.isChecked c.schema
  /-- A filter that compiles is read completely. -/
  complete : ∀ criteria, (c.compile f input).result = .ok criteria →
    (c.compile f input).reads = (f.placedRules c.schema).map (·.place)

variable {c : Compiler} {f : Filter α} {input : α}

theorem reads_compile_of_root {root : Root} (hf : f.fault? = none)
    (hr : c.rootFor f.entity = .ok root) :
    (c.compile f input).reads =
      (runSteps c.mode c.schema input {} (f.plan c.schema root).2).reads := by
  simp only [compile, hf, hr]

theorem reads_compile_of_refused (input : α) (h : ¬(f.WellFormed ∧ c.AdmitsTarget f.entity)) :
    (c.compile f input).reads = [] := by
  cases hf : f.fault? with
  | some fault => simp only [compile, hf]
  | none =>
    cases hr : c.rootFor f.entity with
    | error e => simp only [compile, hf, hr]
    | ok root => exact absurd ⟨f.fault?_eq_none_iff.mp hf, exists_rootFor_iff.mp ⟨root, hr⟩⟩ h

theorem reads_compile_of_admitted (input : α) (hf : f.WellFormed) (ht : c.AdmitsTarget f.entity) :
    (c.compile f input).reads = checkedPlaces c.schema (f.reached c.schema input c.mode) := by
  obtain ⟨root, hr⟩ := exists_rootFor_iff.mpr ht
  have hcarries := f.carriesOut_plan (s := c.schema) hf (model_of_rootFor hr)
  rw [reads_compile_of_root (f.fault?_eq_none_iff.mpr hf) hr]
  cases c.mode with
  | failFast =>
    have hempty : ({} : Progress).groups.Took ([] : List (PlacedRule α)) := Grouping.took_empty
    exact hcarries.reads_failFast hempty
  | aggregate => exact hcarries.reads_aggregate {}

theorem reads_compile_of_ok {criteria : Criteria}
    (h : (c.compile f input).result = .ok criteria) :
    (c.compile f input).reads = (f.placedRules c.schema).map (·.place) := by
  obtain ⟨hf, hr, ms, ho, hms, _⟩ := (c.result_compile_eq_ok_iff input).mp h
  have hcarries := f.carriesOut_plan (s := c.schema) (f.fault?_eq_none_iff.mp hf)
    (model_of_rootFor hr)
  have herrors : (runSteps .aggregate c.schema input {}
      (f.plan c.schema criteria.root).2).errors = [] :=
    (runSteps_empty c.schema input _).1.trans
      ((f.errors_eq_nil_iff c.schema criteria.root input).mpr ⟨ms, ho, hms⟩)
  have hrun : runSteps c.mode c.schema input {} (f.plan c.schema criteria.root).2 =
      runSteps .aggregate c.schema input {} (f.plan c.schema criteria.root).2 := by
    cases c.mode with
    | failFast => exact runSteps_failFast_eq herrors
    | aggregate => rfl
  have hoffers : ∀ step ∈ (f.plan c.schema criteria.root).2,
      ∃ m, step.offer c.schema input = .ok m :=
    fun step hstep => exists_eq_map_ok_iff.mp ⟨ms, ho⟩ _ (List.mem_map_of_mem hstep)
  have hchecked := hcarries.forall_isChecked hoffers
  rw [reads_compile_of_root hf hr, hrun, hcarries.reads_aggregate, List.nil_append,
    checkedPlaces, List.filter_eq_self.mpr hchecked]

theorem reached_isPrefix (s : Schema) (mode : ErrorMode) :
    f.reached s input mode <+: f.placedRules s := by
  cases mode with
  | failFast => exact upToFailure_isPrefix s input [] _
  | aggregate => exact List.prefix_rfl

theorem readsRules (c : Compiler) (f : Filter α) (input : α) : c.ReadsRules f input := by
  by_cases h : f.WellFormed ∧ c.AdmitsTarget f.entity
  · have hreads := reads_compile_of_admitted input h.1 h.2
    have hsub : (f.reached c.schema input c.mode).Sublist (f.placedRules c.schema) :=
      (reached_isPrefix c.schema c.mode).sublist
    have hnodup := f.nodup_places c.schema
    refine ⟨fun hnot => absurd h hnot, fun _ _ => hreads, ?_, ?_, fun _ => reads_compile_of_ok⟩
    · rw [hreads]
      exact hnodup.sublist ((List.filter_sublist.trans hsub).map _)
    · intro p hp hplace
      rw [hreads] at hplace
      obtain ⟨q, hq, heq⟩ := List.mem_map.mp hplace
      obtain ⟨hmem, hchecked⟩ := List.mem_filter.mp hq
      rwa [← List.inj_on_of_nodup_map hnodup (hsub.mem hmem) hp heq]
  · have hreads := reads_compile_of_refused input h
    refine ⟨fun _ => hreads, fun hf ht => absurd ⟨hf, ht⟩ h, ?_, ?_, fun _ => reads_compile_of_ok⟩
    · rw [hreads]
      exact List.nodup_nil
    · intro p _ hplace
      rw [hreads] at hplace
      cases hplace

end Compiler

/-- **Values are read in order, once, and only for rules that are checked.** The places of a
    filter's rules are distinct, in both modes a compilation reads the rules that it reaches and
    that pass their checks, and what the mode that stops reads the other one reads first. -/
theorem reads_checked_rules (s : Schema) (root? : Option Root) (f : Filter α) (input : α) :
    (f.placedRules s).map (·.rule) = f.rules ∧
      ((f.placedRules s).map (·.place)).Nodup ∧
      (∀ mode, Compiler.ReadsRules ⟨s, mode, root?⟩ f input) ∧
      (Compiler.compile ⟨s, .failFast, root?⟩ f input).reads <+:
        (Compiler.compile ⟨s, .aggregate, root?⟩ f input).reads := by
  refine ⟨f.map_rule_placedRules s, f.nodup_places s, fun mode => Compiler.readsRules _ f input, ?_⟩
  have hstop := Compiler.readsRules ⟨s, .failFast, root?⟩ f input
  by_cases h : f.WellFormed ∧ Compiler.AdmitsTarget ⟨s, .failFast, root?⟩ f.entity
  · have hgo := Compiler.readsRules ⟨s, .aggregate, root?⟩ f input
    rw [hstop.admitted h.1 h.2, hgo.admitted h.1 ⟨h.2.declared, h.2.supplied⟩]
    exact ((Compiler.reached_isPrefix s .failFast).filter _).map _
  · rw [hstop.refused h]
    exact List.nil_prefix

end SchemaFilter
