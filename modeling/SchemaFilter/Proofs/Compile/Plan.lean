import SchemaFilter.Proofs.Compile.Rule

/-!
# The plan of a filter

Which models a chain of hops leads to, said without errors (`Walks`), and the steps of a filter as
they follow from it. A chain that cannot be walked is one failing step, and its error depends
neither on the place of the rule nor on the rules that the hops carry.

Results:

* `walk_cases`: a chain of hops is walked to the joins of its targets, or fails in one way;
* `Filter.offers_eq`: what a filter offers, part by part.
-/

namespace SchemaFilter

variable {α : Type}

/-! ## Hops -/

/-- The model that a hop leads to from a model, over a relation of the declared cardinality. -/
def RelationHop.target? (s : Schema) (model : String) (h : RelationHop α) : Option String :=
  (s.field? model h.name).bind fun f =>
    if f.cardinality = h.cardinality then f.type.target? else none

theorem RelationHop.target?_eq_some_iff {s : Schema} {model target : String}
    {h : RelationHop α} : h.target? s model = some target ↔
      ∃ f, s.field? model h.name = some f ∧ f.type = .relation target ∧
        f.cardinality = h.cardinality := by
  have htarget : ∀ type : FieldType, type.target? = some target ↔ type = .relation target := by
    intro type
    cases type <;> simp [FieldType.target?]
  rw [target?, Option.bind_eq_some_iff]
  refine exists_congr fun f => and_congr_right fun _ => ?_
  split_ifs with hcard
  · rw [htarget, and_iff_left hcard]
  · exact iff_of_false not_false fun h => hcard h.2

theorem RelationHop.check_of_target?_eq_some {s : Schema} {model target : String}
    {h : RelationHop α} (ht : h.target? s model = some target) :
    ∃ field, h.check s model = .ok field ∧ field.target? = some target ∧ field.field = h.name ∧
      field.cardinality = h.cardinality := by
  obtain ⟨f, hf, hrel, hcard⟩ := target?_eq_some_iff.mp ht
  refine ⟨⟨model, h.name, f.column, f.type, f.cardinality, f.modifier.isOptional⟩, ?_, ?_, rfl,
    hcard⟩
  · simp only [check, Schema.resolve_of_field?_eq_some hf, hrel]
    exact if_neg (not_not_intro hcard)
  · rw [FieldInfo.target?, hrel, FieldType.target?]

theorem RelationHop.check_of_target?_eq_none {s : Schema} {model : String} {h : RelationHop α}
    (ht : h.target? s model = none) : ∃ e, h.check s model = .error e := by
  rw [target?, Option.bind_eq_none_iff] at ht
  cases hf : s.field? model h.name with
  | none =>
    obtain ⟨e, he⟩ := Schema.resolve_of_field?_eq_none hf
    exact ⟨.structuralMismatch model h.name (.notFound e), by simp only [check, he]⟩
  | some f =>
    have ht := ht f hf
    simp only [check, Schema.resolve_of_field?_eq_some hf]
    cases htype : f.type with
    | scalar type => exact ⟨_, rfl⟩
    | relation target =>
      have hcard : ¬f.cardinality = h.cardinality := by
        intro hcard
        rw [if_pos hcard, htype] at ht
        exact Option.some_ne_none _ ht
      exact ⟨_, if_pos hcard⟩

/-! ## Chains of hops -/

/-- The hops lead from a model over the targets, one each. -/
inductive Walks (s : Schema) : String → List (RelationHop α) → List String → Prop where
  | nil (model : String) : Walks s model [] []
  | cons {model target : String} {hop : RelationHop α} {hops : List (RelationHop α)}
      {targets : List String} (head : hop.target? s model = some target)
      (tail : Walks s target hops targets) : Walks s model (hop :: hops) (target :: targets)

theorem Walks.length_eq {s : Schema} {model : String} {hops : List (RelationHop α)}
    {targets : List String} (h : Walks s model hops targets) : hops.length = targets.length := by
  induction h with
  | nil model => rfl
  | cons head tail ih => rw [List.length_cons, List.length_cons, ih]

/-- Hops lead over one list of targets. -/
theorem Walks.unique {s : Schema} {model : String} {hops : List (RelationHop α)}
    {targets targets' : List String} (h : Walks s model hops targets)
    (h' : Walks s model hops targets') : targets = targets' := by
  induction h generalizing targets' with
  | nil model =>
    cases h'
    rfl
  | cons head tail ih =>
    cases h' with
    | cons head' tail' =>
      cases head.symm.trans head'
      rw [ih tail']

/-- The joins of hops with the given targets, after the relations that were walked before. -/
def chainJoins (rule : Nat) :
    (walked : List String) → List (RelationHop α) → List String → List Join
  | walked, hop :: hops, target :: targets =>
    ⟨rule, walked ++ [hop.name], target, hop.cardinality⟩ ::
      chainJoins rule (walked ++ [hop.name]) hops targets
  | _, _, _ => []

/-- A chain of hops either is walked, or fails with an error that does not depend on the place of
    the rule. -/
theorem walk_cases (s : Schema) (model : String) (hops : List (RelationHop α)) :
    (∃ targets, Walks s model hops targets ∧
        ∀ rule walked, walk s rule model walked hops = .ok (chainJoins rule walked hops targets)) ∨
      (∃ e, (∀ targets, ¬Walks s model hops targets) ∧
        ∀ rule walked, walk s rule model walked hops = .error e) := by
  induction hops generalizing model with
  | nil => exact .inl ⟨[], .nil model, fun _ _ => rfl⟩
  | cons hop hops ih =>
    cases ht : hop.target? s model with
    | none =>
      obtain ⟨e, he⟩ := RelationHop.check_of_target?_eq_none ht
      refine .inr ⟨e, ?_, fun _ _ => by simp only [walk, he]⟩
      intro targets hw
      cases hw with
      | cons head tail => exact Option.some_ne_none _ (head.symm.trans ht)
    | some target =>
      obtain ⟨field, hcheck, htarget, hname, hcard⟩ := RelationHop.check_of_target?_eq_some ht
      have hwalk : ∀ rule walked, walk s rule model walked (hop :: hops) =
          (walk s rule target (walked ++ [hop.name]) hops).map
            (⟨rule, walked ++ [hop.name], target, hop.cardinality⟩ :: ·) := by
        intro rule walked
        simp only [walk, hcheck, htarget, hname, hcard]
      rcases ih target with ⟨targets, hw, hok⟩ | ⟨e, hnot, herr⟩
      · exact .inl ⟨target :: targets, .cons ht hw, fun _ _ => by rw [hwalk, hok]; rfl⟩
      · refine .inr ⟨e, ?_, fun _ _ => by rw [hwalk, herr]; rfl⟩
        intro targets hw
        cases hw with
        | @cons _ target' _ _ targets head tail =>
          have : target' = target := Option.some.inj (head.symm.trans ht)
          exact hnot targets (this ▸ tail)

/-! ## Steps -/

/-- The steps of one relation rule. -/
def RelationRule.steps (s : Schema) (root : Root) (index : Nat) (r : RelationRule α) :
    List (Step α) :=
  match r.joins s (index + 1) root.model with
  | .error e => [.fail e]
  | .ok js => hopSteps index 0 r.hops js

theorem snd_relationSteps_cons (s : Schema) (root : Root) (index : Nat) (r : RelationRule α)
    (rs : List (RelationRule α)) :
    (relationSteps s root index (r :: rs)).2 =
      r.steps s root index ++ (relationSteps s root (index + 1) rs).2 := by
  simp only [relationSteps, RelationRule.steps]
  cases r.joins s (index + 1) root.model <;> rfl

theorem snd_plan (f : Filter α) (s : Schema) (root : Root) :
    (f.plan s root).2 =
      ruleSteps .direct root.model root.table f.parameters ++
        (relationSteps s root 0 f.relations).2 := rfl

/-! ## Offers -/

section

variable (s : Schema) (input : α)

theorem map_offer_ruleSteps (place : Nat → Place) (model qualifier : String)
    (rules : List (ParameterRule α)) :
    (ruleSteps place model qualifier rules).map (·.offer s input) =
      rules.map (·.offer s model qualifier input) := by
  apply List.ext_getElem
  · simp [ruleSteps]
  · intro i h₁ h₂
    simp [ruleSteps, Step.offer]

/-- What the rules on hops with the given joins offer. -/
def hopOffers : List (RelationHop α) → List Join → List (Except CompileError Member)
  | hop :: hops, join :: joins =>
    hop.parameters.map (·.offer s join.target join.aliasName input) ++ hopOffers hops joins
  | _, _ => []

theorem map_offer_hopSteps (relation hop : Nat) (hops : List (RelationHop α)) (joins : List Join) :
    (hopSteps relation hop hops joins).map (·.offer s input) = hopOffers s input hops joins := by
  induction hops generalizing hop joins with
  | nil => cases joins <;> rfl
  | cons h hops ih =>
    cases joins with
    | nil => rfl
    | cons join joins =>
      rw [hopSteps, List.map_append, map_offer_ruleSteps, ih, hopOffers]

/-- What one relation rule offers. -/
def RelationRule.offers (root : Root) (index : Nat) (r : RelationRule α) :
    List (Except CompileError Member) :=
  match r.joins s (index + 1) root.model with
  | .error e => [.error e]
  | .ok joins => hopOffers s input r.hops joins

theorem map_offer_steps (root : Root) (index : Nat) (r : RelationRule α) :
    (r.steps s root index).map (·.offer s input) = r.offers s input root index := by
  rw [RelationRule.steps, RelationRule.offers]
  cases r.joins s (index + 1) root.model with
  | error e => rfl
  | ok joins => exact map_offer_hopSteps s input index 0 r.hops joins

theorem map_offer_relationSteps (root : Root) (index : Nat) (rs : List (RelationRule α)) :
    (relationSteps s root index rs).2.map (·.offer s input) =
      (rs.zipIdx index).flatMap fun p => p.1.offers s input root p.2 := by
  induction rs generalizing index with
  | nil => rfl
  | cons r rs ih =>
    rw [snd_relationSteps_cons, List.map_append, map_offer_steps, ih, List.zipIdx_cons,
      List.flatMap_cons]

/-- A filter offers what its parameter rules offer on the root, and then what its relation rules
    offer. -/
theorem Filter.offers_eq (f : Filter α) (root : Root) :
    f.offers s root input =
      f.parameters.map (·.offer s root.model root.table input) ++
        f.relations.zipIdx.flatMap fun p => p.1.offers s input root p.2 := by
  rw [offers, snd_plan, List.map_append, map_offer_ruleSteps, map_offer_relationSteps]

end

end SchemaFilter
