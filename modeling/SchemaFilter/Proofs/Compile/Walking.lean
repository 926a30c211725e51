import SchemaFilter.Proofs.Compile.Joins

/-!
# Walking relations

A relation rule is walked hop by hop. Either every hop names a relation of its cardinality on the
model that the walk has reached, and then there is one join for each hop; or the walk stops at the
first hop that does not, and the error is about that hop alone: what comes after it, and the rules
that the hops carry, do not matter.

Main definitions and results:

* `HopFault`: why a hop cannot be walked, the reasons in their order of precedence;
* `walks_or_stops`: hops lead over targets, or a first one of them has a fault;
* `walk_of_hopFault`: the error of that hop is the one of the walk;
* `joins_walked_or_stopped`: the joins of a relation rule, or its error.
-/

namespace SchemaFilter

variable {α β : Type} {s : Schema} {model root : String}

/-! ## Faults of hops -/

/-- Why a relation of the given name and cardinality cannot be walked from a model. Each reason
    presupposes that the ones before it do not hold. -/
inductive HopFault (s : Schema) (model name : String) (c : Cardinality) : StructuralFault → Prop
  | unknownModel (hmodel : s.model? model = none) :
      HopFault s model name c (.notFound (.unknownModel model))
  | unknownField {m : Model} (hmodel : s.model? model = some m) (hfield : m.field? name = none) :
      HopFault s model name c (.notFound (.unknownField model name))
  | notRelation {m : Model} {f : Field} {type : ScalarType} (hmodel : s.model? model = some m)
      (hfield : m.field? name = some f) (htype : f.type = .scalar type) :
      HopFault s model name c (.notRelation f.type)
  | cardinality {m : Model} {f : Field} {target : String} (hmodel : s.model? model = some m)
      (hfield : m.field? name = some f) (htype : f.type = .relation target)
      (hcardinality : f.cardinality ≠ c) :
      HopFault s model name c (.cardinality c f.cardinality)

/-- A hop leads to no model only if it has a fault. -/
theorem RelationHop.exists_hopFault {hop : RelationHop α} (h : hop.target? s model = none) :
    ∃ fault, HopFault s model hop.name hop.cardinality fault := by
  cases hm : s.model? model with
  | none => exact ⟨_, .unknownModel hm⟩
  | some m =>
    cases hf : m.field? hop.name with
    | none => exact ⟨_, .unknownField hm hf⟩
    | some f =>
      cases htype : f.type with
      | scalar type => exact ⟨_, .notRelation hm hf htype⟩
      | relation target =>
        have hfield : s.field? model hop.name = some f := by
          rw [Schema.field?, hm, Option.bind_some, hf]
        have hcard : f.cardinality ≠ hop.cardinality := by
          intro hcard
          have ht := RelationHop.target?_eq_some_iff.mpr ⟨f, hfield, htype, hcard⟩
          exact Option.some_ne_none _ (ht.symm.trans h)
        exact ⟨_, .cardinality hm hf htype hcard⟩

/-- The check of a hop reports its fault. -/
theorem HopFault.check_eq {hop : RelationHop α} {fault : StructuralFault}
    (h : HopFault s model hop.name hop.cardinality fault) :
    hop.check s model = .error (.structuralMismatch model hop.name fault) := by
  have hresolve : ∀ {m f}, s.model? model = some m → m.field? hop.name = some f →
      s.resolve model hop.name = .ok (Schema.fieldInfo m f) := fun hm hf =>
    Schema.resolve_eq_ok_iff.mpr ⟨_, _, hm, hf, rfl⟩
  cases h with
  | unknownModel hm =>
    simp only [RelationHop.check, Schema.resolve_eq_error_iff.mpr (.inl ⟨rfl, hm⟩)]
  | unknownField hm hf =>
    simp only [RelationHop.check, Schema.resolve_eq_error_iff.mpr (.inr ⟨rfl, _, hm, hf⟩)]
  | notRelation hm hf htype =>
    simp [RelationHop.check, hresolve hm hf, Schema.fieldInfo, htype, FieldType.isRelation]
  | cardinality hm hf htype hcard =>
    simp [RelationHop.check, hresolve hm hf, Schema.fieldInfo, htype, FieldType.isRelation, hcard]

/-! ## Walks and stops -/

/-- Hops lead over targets, or there is a first one that leads to no model. -/
theorem walks_or_stops (s : Schema) (model : String) (hops : List (RelationHop α)) :
    (∃ targets, Walks s model hops targets) ∨
      ∃ before hop after targets, hops = before ++ hop :: after ∧ Walks s model before targets ∧
        hop.target? s (targets.getLastD model) = none := by
  induction hops generalizing model with
  | nil => exact .inl ⟨[], .nil model⟩
  | cons hop hops ih =>
    cases ht : hop.target? s model with
    | none => exact .inr ⟨[], hop, hops, [], rfl, .nil model, ht⟩
    | some target =>
      rcases ih target with ⟨targets, hw⟩ | ⟨before, stop, after, targets, rfl, hw, hstop⟩
      · exact .inl ⟨target :: targets, .cons ht hw⟩
      · exact .inr ⟨hop :: before, stop, after, target :: targets, rfl, .cons ht hw,
          by rwa [List.getLastD_cons]⟩

theorem walk_of_walks {hops : List (RelationHop α)} {targets : List String}
    (hw : Walks s model hops targets) (rule : Nat) (walked : List String) :
    walk s rule model walked hops = .ok (chainJoins rule walked hops targets) := by
  rcases walk_cases s model hops with ⟨targets', hw', hok⟩ | ⟨_, hnot, _⟩
  · rw [hw.unique hw', hok]
  · exact absurd hw (hnot targets)

/-- A walk that comes to a hop with a fault stops there, whatever comes after the hop. -/
theorem walk_of_hopFault {before after : List (RelationHop α)} {hop : RelationHop α}
    {targets : List String} {fault : StructuralFault} (hw : Walks s model before targets)
    (hfault : HopFault s (targets.getLastD model) hop.name hop.cardinality fault) (rule : Nat)
    (walked : List String) :
    walk s rule model walked (before ++ hop :: after) =
      .error (.structuralMismatch (targets.getLastD model) hop.name fault) := by
  induction hw generalizing walked with
  | nil model =>
    have hcheck : hop.check s model = .error (.structuralMismatch model hop.name fault) :=
      hfault.check_eq
    rw [List.nil_append, walk, hcheck, List.getLastD_nil]
  | @cons model target first hops targets head tail ih =>
    obtain ⟨field, hcheck, htarget, _, _⟩ := RelationHop.check_of_target?_eq_some head
    rw [List.getLastD_cons] at hfault ⊢
    simp only [List.cons_append, walk, hcheck, htarget, ih hfault]
    rfl

/-! ## What the hops carry -/

/-- A hop without its rules. -/
def RelationHop.outline (h : RelationHop α) : String × Cardinality := (h.name, h.cardinality)

/-- Hops lead where other hops with the same names and cardinalities do. -/
theorem Walks.of_outlines {hops : List (RelationHop α)} {hops' : List (RelationHop β)}
    {targets : List String} (h : Walks s model hops targets)
    (heq : hops'.map (·.outline) = hops.map (·.outline)) : Walks s model hops' targets := by
  induction h generalizing hops' with
  | nil model =>
    obtain rfl := List.map_eq_nil_iff.mp heq
    exact .nil model
  | cons head tail ih =>
    obtain ⟨hop', hops', rfl, hhop, hhops⟩ := List.map_eq_cons_iff.mp heq
    obtain ⟨hname, hcard⟩ := Prod.mk.inj hhop
    refine .cons ?_ (ih hhops)
    rw [← head, RelationHop.target?, RelationHop.target?, hname, hcard]

/-- Rules whose first hops have the same names and cardinalities stop at the same hop, for the same
    reason. -/
theorem joins_eq_of_outlines {r : RelationRule α} {r' : RelationRule β}
    {before after : List (RelationHop α)} {hop : RelationHop α} {targets : List String}
    {fault : StructuralFault} (hhops : r.hops = before ++ hop :: after)
    (hw : Walks s root before targets)
    (hfault : HopFault s (targets.getLastD root) hop.name hop.cardinality fault)
    (heq : (r'.hops.map (·.outline)).take (before.length + 1) =
      (r.hops.map (·.outline)).take (before.length + 1)) (rule rule' : Nat) :
    r'.joins s rule' root = r.joins s rule root := by
  have htake : (r.hops.map (·.outline)).take (before.length + 1) =
      before.map (·.outline) ++ [hop.outline] := by
    rw [hhops, List.map_append, List.map_cons, List.take_append, List.take_of_length_le (by simp)]
    simp
  rw [htake, ← List.map_take, List.map_eq_append_iff] at heq
  obtain ⟨before', stop, hsplit, hbefore, hstop⟩ := heq
  obtain ⟨hop', _, rfl, hhop, hnil⟩ := List.map_eq_cons_iff.mp hstop
  obtain rfl := List.map_eq_nil_iff.mp hnil
  obtain ⟨hname, hcard⟩ := Prod.mk.inj hhop
  have hhops' : r'.hops = before' ++ hop' :: r'.hops.drop (before.length + 1) := by
    rw [← List.singleton_append, ← List.append_assoc, ← hsplit, List.take_append_drop]
  rw [← hname, ← hcard] at hfault
  rw [RelationRule.joins, RelationRule.joins, hhops, hhops',
    walk_of_hopFault (hw.of_outlines hbefore) hfault, hname]
  rw [hname, hcard] at hfault
  rw [walk_of_hopFault hw hfault]

/-! ## Relation rules -/

/-- **Relations are walked exactly, or up to the first fault.** Either the hops of a relation rule
    lead from the root over targets, and then it has one join for each hop, with the number of the
    rule, the names of the hops up to this one, its target and its cardinality. Or a first hop has a
    fault on the model that the hops before it lead to, and the error says so. Every rule whose hops
    up to this one have the same names and cardinalities has this error too, whatever hops follow
    and whatever rules the hops carry. -/
theorem joins_walked_or_stopped (s : Schema) (rule : Nat) (root : String) (r : RelationRule α) :
    (∃ (targets : List String) (joins : List Join), Walks s root r.hops targets ∧
        r.joins s rule root = .ok joins ∧
        joins.length = r.hops.length ∧
        (∀ i hop, r.hops[i]? = some hop → ∃ target, targets[i]? = some target ∧
          joins[i]? = some
            (Join.mk rule ((r.hops.take (i + 1)).map (·.name)) target hop.cardinality)) ∧
        terminal? joins = targets.getLast?) ∨
      ∃ (before : List (RelationHop α)) (hop : RelationHop α) (after : List (RelationHop α))
        (targets : List String) (fault : StructuralFault), r.hops = before ++ hop :: after ∧
        Walks s root before targets ∧
        HopFault s (targets.getLastD root) hop.name hop.cardinality fault ∧
        r.joins s rule root =
          .error (.structuralMismatch (targets.getLastD root) hop.name fault) ∧
        ∀ (β : Type) (r' : RelationRule β) (rule' : Nat),
          (r'.hops.map (·.outline)).take (before.length + 1) =
            (r.hops.map (·.outline)).take (before.length + 1) →
          r'.joins s rule' root = r.joins s rule root := by
  rcases walks_or_stops s root r.hops with
    ⟨targets, hw⟩ | ⟨before, hop, after, targets, hhops, hw, hstop⟩
  · have hchain := hw.isJoinChain rule
    refine .inl ⟨targets, _, hw, walk_of_walks hw rule [], hchain.length_eq, ?_, ?_⟩
    · intro i hop hhop
      obtain ⟨hi, _⟩ := List.getElem?_eq_some_iff.mp hhop
      have hjoin := List.getElem?_eq_getElem (hchain.length_eq ▸ hi)
      obtain ⟨hop', target, hhop', htarget, heq⟩ := getElem?_chainJoins hjoin
      cases hhop.symm.trans hhop'
      exact ⟨target, htarget, hjoin.trans (congrArg some heq)⟩
    · rw [terminal?, ← List.getLast?_map, map_target_chainJoins hw]
  · obtain ⟨fault, hfault⟩ := RelationHop.exists_hopFault hstop
    refine .inr ⟨before, hop, after, targets, fault, hhops, hw, hfault, ?_,
      fun _ _ rule' heq => joins_eq_of_outlines hhops hw hfault heq rule rule'⟩
    rw [RelationRule.joins, hhops, walk_of_hopFault hw hfault]

/-- A chain that goes on over the name of a manager, which is no relation. -/
def nameChain : RelationRule String := ⟨[⟨"manager", .single, []⟩, ⟨"name", .single, []⟩]⟩

/-- The same chain with one more hop, and with the rules of another filter on its first one. -/
def longerNameChain : RelationRule String :=
  ⟨[⟨"manager", .single, staffSearch.parameters⟩, ⟨"name", .single, []⟩,
    ⟨"office", .collection, []⟩]⟩

theorem joins_stopped_nameChain :
    nameChain.joins staffSchema 1 "Person" =
        .error (.structuralMismatch "Person" "name" (.notRelation (.scalar .string))) ∧
      longerNameChain.joins staffSchema 2 "Person" = nameChain.joins staffSchema 1 "Person" := by
  have herror : nameChain.joins staffSchema 1 "Person" =
      .error (.structuralMismatch "Person" "name" (.notRelation (.scalar .string))) := rfl
  refine ⟨herror, ?_⟩
  rcases joins_walked_or_stopped staffSchema 1 "Person" nameChain with
    ⟨_, _, _, hok, _⟩ | ⟨before, hop, after, _, _, hhops, _, _, _, hsame⟩
  · cases herror.symm.trans hok
  · refine hsame String longerNameChain 2 ?_
    have hlength : before.length < 2 := by
      have h : nameChain.hops.length = 2 := rfl
      rw [hhops, List.length_append, List.length_cons] at h
      omega
    obtain h | h : before.length = 0 ∨ before.length = 1 := by omega
    · rw [h]
      rfl
    · rw [h]
      rfl

end SchemaFilter
