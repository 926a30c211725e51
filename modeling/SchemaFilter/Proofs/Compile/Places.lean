import SchemaFilter.Proofs.Compile.Acceptance

/-!
# Rules at their places

The rules of a filter stand one after the other in the order of declaration, and each has a place of
its own. A rule on a hop stands on the model that the hop leads to, if all hops of its relation rule
can be walked; else it stands on none.

Main definition:

* `Filter.placedRules`: the rules of a filter, each with its place and its model.

Results:

* `Filter.map_rule_placedRules`: these are all rules, in their order;
* `Filter.nodup_places`: their places are distinct.
-/

namespace SchemaFilter

variable {α : Type}

/-! ## Placed rules -/

/-- A parameter rule with its place in the filter, and the model it stands on if the hops to it can
    be walked. -/
structure PlacedRule (α : Type) where
  place : Place
  model? : Option String
  rule : ParameterRule α

/-- Rules at places that are given by their index. -/
def placeRules (place : Nat → Place) (model? : Option String) (rules : List (ParameterRule α)) :
    List (PlacedRule α) :=
  rules.mapIdx fun i r => ⟨place i, model?, r⟩

/-- The models that hops lead to from a model, if all of them can be walked. -/
def hopTargets? (s : Schema) : (model : String) → List (RelationHop α) → Option (List String)
  | _, [] => some []
  | model, hop :: hops =>
    (hop.target? s model).bind fun target => (hopTargets? s target hops).map (target :: ·)

/-- The rules on the hops of the relation rule with the given index. -/
def RelationRule.placedRules (s : Schema) (model : String) (index : Nat) (r : RelationRule α) :
    List (PlacedRule α) :=
  r.hops.zipIdx.flatMap fun p =>
    placeRules (.onHop index p.2) ((hopTargets? s model r.hops).bind (·[p.2]?)) p.1.parameters

/-- All parameter rules of a filter, in the order of declaration. -/
def Filter.placedRules (f : Filter α) (s : Schema) : List (PlacedRule α) :=
  placeRules .direct (some f.entity) f.parameters ++
    f.relations.zipIdx.flatMap fun p => p.1.placedRules s f.entity p.2

theorem hopTargets?_eq_some_iff {s : Schema} {model : String} {hops : List (RelationHop α)}
    {targets : List String} :
    hopTargets? s model hops = some targets ↔ Walks s model hops targets := by
  induction hops generalizing model targets with
  | nil =>
    constructor
    · rintro ⟨⟩
      exact .nil model
    · rintro ⟨⟩
      rfl
  | cons hop hops ih =>
    rw [hopTargets?, Option.bind_eq_some_iff]
    constructor
    · rintro ⟨target, head, h⟩
      obtain ⟨rest, hrest, rfl⟩ := Option.map_eq_some_iff.mp h
      exact .cons head (ih.mp hrest)
    · rintro (_ | ⟨head, tail⟩)
      exact ⟨_, head, Option.map_eq_some_iff.mpr ⟨_, ih.mpr tail, rfl⟩⟩

theorem map_rule_placeRules (place : Nat → Place) (model? : Option String)
    (rules : List (ParameterRule α)) : (placeRules place model? rules).map (·.rule) = rules := by
  apply List.ext_getElem
  · simp [placeRules]
  · intro i h₁ h₂
    simp [placeRules]

theorem flatMap_zipIdx_fst {β γ : Type} (l : List β) (index : Nat) (g : β → List γ) :
    ((l.zipIdx index).flatMap fun p => g p.1) = l.flatMap g := by
  rw [← List.flatMap_map, List.zipIdx_map_fst]

theorem RelationRule.map_rule_placedRules (s : Schema) (model : String) (index : Nat)
    (r : RelationRule α) : (r.placedRules s model index).map (·.rule) = r.rules := by
  rw [placedRules, List.map_flatMap]
  simp only [map_rule_placeRules]
  exact flatMap_zipIdx_fst r.hops 0 (·.parameters)

/-- The placed rules are the rules, in their order. -/
theorem Filter.map_rule_placedRules (f : Filter α) (s : Schema) :
    (f.placedRules s).map (·.rule) = f.rules := by
  rw [placedRules, List.map_append, map_rule_placeRules, List.map_flatMap]
  simp only [RelationRule.map_rule_placedRules]
  rw [flatMap_zipIdx_fst f.relations 0 RelationRule.rules]
  rfl

/-! ## Places are distinct -/

theorem nodup_places_placeRules {place : Nat → Place} (h : place.Injective) (model? : Option String)
    (rules : List (ParameterRule α)) :
    ((placeRules place model? rules).map (·.place)).Nodup := by
  have hmap : (placeRules place model? rules).map (·.place) =
      (List.range rules.length).map place := by
    apply List.ext_getElem
    · simp [placeRules]
    · intro i h₁ h₂
      simp [placeRules]
  rw [hmap]
  exact List.nodup_range.map h

theorem exists_place_of_mem_placeRules {place : Nat → Place} {model? : Option String}
    {rules : List (ParameterRule α)} {p : PlacedRule α} (h : p ∈ placeRules place model? rules) :
    ∃ i, p.place = place i := by
  obtain ⟨i, hi, rfl⟩ := List.mem_mapIdx.mp h
  exact ⟨i, rfl⟩

/-- Lists of distinct items that each show the index they were made from are distinct together. -/
theorem nodup_flatMap_zipIdx {β γ : Type} (made : γ → Nat → Prop) {l : List β} {index : Nat}
    {g : β × Nat → List γ} (hnodup : ∀ p, (g p).Nodup) (hmade : ∀ p, ∀ x ∈ g p, made x p.2)
    (hunique : ∀ x i j, made x i → made x j → i = j) :
    ((l.zipIdx index).flatMap g).Nodup := by
  rw [List.nodup_flatMap]
  refine ⟨fun p _ => hnodup p, ?_⟩
  have hindices : ((l.zipIdx index).map Prod.snd).Nodup := by
    rw [List.zipIdx_map_snd]
    exact List.nodup_range'
  refine (List.pairwise_map.mp hindices).imp fun {p q} hpq => ?_
  intro x hp hq
  exact hpq (hunique x p.2 q.2 (hmade p x hp) (hmade q x hq))

/-- The place is on the hop with the given index of a relation rule. -/
def Place.IsOnHop (relation : Nat) (place : Place) (hop : Nat) : Prop :=
  ∃ i, place = .onHop relation hop i

/-- The place is on some hop of the relation rule with the given index. -/
def Place.IsOfRelation (place : Place) (relation : Nat) : Prop :=
  ∃ hop i, place = .onHop relation hop i

theorem RelationRule.isOnHop_of_mem_placeRules {relation hop : Nat} {model? : Option String}
    {rules : List (ParameterRule α)} :
    ∀ place ∈ (placeRules (.onHop relation hop) model? rules).map (·.place),
      Place.IsOnHop relation place hop := by
  intro place hplace
  obtain ⟨p, hp, rfl⟩ := List.mem_map.mp hplace
  exact exists_place_of_mem_placeRules hp

theorem RelationRule.isOfRelation_of_mem_placedRules {s : Schema} {model : String} {index : Nat}
    {r : RelationRule α} :
    ∀ place ∈ (r.placedRules s model index).map (·.place), place.IsOfRelation index := by
  intro place hplace
  obtain ⟨p, hp, rfl⟩ := List.mem_map.mp hplace
  obtain ⟨q, _, hp⟩ := List.mem_flatMap.mp hp
  obtain ⟨i, hi⟩ := exists_place_of_mem_placeRules hp
  exact ⟨q.2, i, hi⟩

theorem RelationRule.nodup_places (s : Schema) (model : String) (index : Nat)
    (r : RelationRule α) : ((r.placedRules s model index).map (·.place)).Nodup := by
  rw [placedRules, List.map_flatMap]
  refine nodup_flatMap_zipIdx (Place.IsOnHop index)
    (fun p => nodup_places_placeRules (fun i j h => ?_) _ _)
    (fun p => isOnHop_of_mem_placeRules) ?_
  · cases h
    rfl
  · rintro _ i j ⟨_, rfl⟩ ⟨_, h⟩
    cases h
    rfl

/-- No two rules of a filter have one place. -/
theorem Filter.nodup_places (f : Filter α) (s : Schema) :
    ((f.placedRules s).map (·.place)).Nodup := by
  rw [placedRules, List.map_append, List.map_flatMap]
  refine List.nodup_append.mpr ⟨nodup_places_placeRules (fun i j h => ?_) _ _,
    nodup_flatMap_zipIdx Place.IsOfRelation (fun p => p.1.nodup_places s f.entity p.2)
      (fun p => RelationRule.isOfRelation_of_mem_placedRules) ?_, ?_⟩
  · cases h
    rfl
  · rintro _ i j ⟨_, _, rfl⟩ ⟨_, _, h⟩
    cases h
    rfl
  · rintro _ hdirect _ hon rfl
    obtain ⟨p, hp, rfl⟩ := List.mem_map.mp hdirect
    obtain ⟨i, hi⟩ := exists_place_of_mem_placeRules hp
    obtain ⟨q, _, hq⟩ := List.mem_flatMap.mp hon
    obtain ⟨_, _, hplace⟩ := RelationRule.isOfRelation_of_mem_placedRules _ hq
    rw [hi] at hplace
    cases hplace

end SchemaFilter
