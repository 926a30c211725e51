import SchemaFilter.Proofs.Compile.Leaves
import SchemaFilter.Proofs.Predicate.Comparisons

/-!
# The joins of a compiled filter

Relation rule by relation rule, a compiled filter has a chain of joins, one for each hop, and the
leaf of a rule on a hop is read from the join of that hop. Chains and leaves are made apart from
each other, the chains when a filter is laid out and the leaves when its steps are run; here they
are put side by side.

Results:

* `Walks.isJoinChain`: hops that are walked make a chain of joins;
* `Filter.exists_chains`: the joins of a filter whose steps all offer members are the chains of its
  relation rules, and the members are the leaves on the root and on these chains;
* `parentFirst_flatten`: in a list of chains every join comes after the one that it goes on from;
* `joins_match_leaves`: the joins and the leaves of a compiled filter.
-/

namespace SchemaFilter

variable {α : Type}

/-! ## Chains of joins -/

/-- The joins of the relation rule with the given number, counted from one, on a root model. There
    is one for each hop. -/
structure IsJoinChain (s : Schema) (root : String) (rule : Nat) (hops : List (RelationHop α))
    (chain : List Join) : Prop where
  length_eq : chain.length = hops.length
  rule_eq : ∀ join ∈ chain, join.rule = rule
  /-- A join walks the names of the hops up to its own. -/
  relations_eq : ∀ (k : Nat) (join : Join), chain[k]? = some join →
    join.relations = (hops.take (k + 1)).map (·.name)
  /-- It leads to the model that the relation of its hop is declared to have, on the model that the
      join before leads to, or on the root. -/
  target_eq : ∀ (k : Nat) (hop : RelationHop α) (join : Join), hops[k]? = some hop →
    chain[k]? = some join → ∃ model field, (root :: chain.map (·.target))[k]? = some model ∧
      s.field? model hop.name = some field ∧ field.type = .relation join.target ∧
      field.cardinality = join.cardinality

section

variable {s : Schema} {model : String} {hops : List (RelationHop α)} {targets : List String}

theorem map_target_chainJoins (hw : Walks s model hops targets) (rule : Nat)
    (walked : List String) : (chainJoins rule walked hops targets).map (·.target) = targets := by
  induction hw generalizing walked with
  | nil model => rfl
  | cons head tail ih => rw [chainJoins, List.map_cons, ih]

/-- What the joins in a chain are, by their place. -/
theorem getElem?_chainJoins {rule k : Nat} {walked : List String} {join : Join}
    (h : (chainJoins rule walked hops targets)[k]? = some join) :
    ∃ hop target, hops[k]? = some hop ∧ targets[k]? = some target ∧
      join = ⟨rule, walked ++ (hops.take (k + 1)).map (·.name), target, hop.cardinality⟩ := by
  fun_induction chainJoins rule walked hops targets generalizing k with
  | case1 walked hop hops target targets ih =>
    cases k with
    | zero =>
      rw [List.getElem?_cons_zero, Option.some.injEq] at h
      exact ⟨hop, target, rfl, rfl, h.symm⟩
    | succ k =>
      obtain ⟨hop', target', hhop, htarget, rfl⟩ := ih h
      exact ⟨hop', target', hhop, htarget, by simp⟩
  | case2 => simp at h

/-- A hop that is walked goes on from where the one before leads to. -/
theorem Walks.exists_target? (hw : Walks s model hops targets) {k : Nat} {hop : RelationHop α}
    {target : String} (hhop : hops[k]? = some hop) (htarget : targets[k]? = some target) :
    ∃ before, (model :: targets)[k]? = some before ∧ hop.target? s before = some target := by
  induction hw generalizing k with
  | nil model => simp at hhop
  | @cons model next first hops targets head tail ih =>
    cases k with
    | zero =>
      cases hhop
      cases htarget
      exact ⟨model, rfl, head⟩
    | succ k => exact ih hhop htarget

/-- Hops that are walked make a chain of joins. -/
theorem Walks.isJoinChain (hw : Walks s model hops targets) (rule : Nat) :
    IsJoinChain s model rule hops (chainJoins rule [] hops targets) where
  length_eq := by
    have h := congrArg List.length (map_target_chainJoins hw rule [])
    rw [List.length_map] at h
    rw [h, hw.length_eq]
  rule_eq := by
    intro join hjoin
    obtain ⟨k, hk⟩ := List.getElem?_of_mem hjoin
    obtain ⟨hop, target, _, _, rfl⟩ := getElem?_chainJoins hk
    rfl
  relations_eq := by
    intro k join hk
    obtain ⟨hop, target, _, _, rfl⟩ := getElem?_chainJoins hk
    rfl
  target_eq := by
    intro k hop join hhop hk
    obtain ⟨hop', target, hhop', htarget, rfl⟩ := getElem?_chainJoins hk
    cases hhop.symm.trans hhop'
    obtain ⟨before, hbefore, hto⟩ := hw.exists_target? hhop htarget
    obtain ⟨field, hfield, htype, hcard⟩ := RelationHop.target?_eq_some_iff.mp hto
    rw [map_target_chainJoins hw]
    exact ⟨before, field, hbefore, hfield, htype, hcard⟩

end

/-! ## The order of joins -/

/-- Every join over more than one relation comes after a join of the same rule, over all its
    relations but the last. -/
def ParentFirst (joins : List Join) : Prop :=
  ∀ (k : Nat) (join : Join), joins[k]? = some join → 1 < join.depth →
    ∃ (i : Nat) (parent : Join), i < k ∧ joins[i]? = some parent ∧ parent.rule = join.rule ∧
      parent.relations = join.relations.dropLast

theorem IsJoinChain.parentFirst {s : Schema} {root : String} {rule : Nat}
    {hops : List (RelationHop α)} {chain : List Join} (h : IsJoinChain s root rule hops chain) :
    ParentFirst chain := by
  intro k join hjoin hdepth
  have hrelations := h.relations_eq k join hjoin
  obtain ⟨hk, _⟩ := List.getElem?_eq_some_iff.mp hjoin
  have hlength := h.length_eq
  cases k with
  | zero =>
    rw [Join.depth, hrelations, List.length_map, List.length_take] at hdepth
    omega
  | succ i =>
    have hparent : chain[i]? = some chain[i] := List.getElem?_eq_getElem _
    refine ⟨i, chain[i], Nat.lt_succ_self i, hparent, ?_, ?_⟩
    · rw [h.rule_eq _ (List.mem_of_getElem? hparent), h.rule_eq _ (List.mem_of_getElem? hjoin)]
    · have htake : hops.take (i + 1 + 1) = hops.take (i + 1) ++ [hops[i + 1]] :=
        List.take_succ_eq_append_getElem _
      rw [h.relations_eq i _ hparent, hrelations, htake, List.map_append, List.map_singleton,
        List.dropLast_concat]

theorem ParentFirst.append {l l' : List Join} (h : ParentFirst l) (h' : ParentFirst l') :
    ParentFirst (l ++ l') := by
  intro k join hjoin hdepth
  by_cases hk : k < l.length
  · rw [List.getElem?_append_left hk] at hjoin
    obtain ⟨i, parent, hi, hparent, hrest⟩ := h k join hjoin hdepth
    exact ⟨i, parent, hi, by rw [List.getElem?_append_left (by omega), hparent], hrest⟩
  · rw [List.getElem?_append_right (by omega)] at hjoin
    obtain ⟨i, parent, hi, hparent, hrest⟩ := h' _ join hjoin hdepth
    refine ⟨l.length + i, parent, by omega, ?_, hrest⟩
    rw [List.getElem?_append_right (by omega), Nat.add_sub_cancel_left, hparent]

theorem parentFirst_flatten {s : Schema} {root : String} {ps : List (RelationRule α × Nat)}
    {chains : List (List Join)}
    (h : List.Forall₂ (fun p chain => IsJoinChain s root (p.2 + 1) p.1.hops chain) ps chains) :
    ParentFirst chains.flatten := by
  induction h with
  | nil =>
    intro k join hjoin
    simp at hjoin
  | cons head tail ih => exact head.parentFirst.append ih

/-! ## Leaves on chains -/

/-- The leaves of the rules on hops with the given joins: they are on the model that the join of
    the hop leads to, under its alias. -/
def chainLeaves (s : Schema) (input : α) (hops : List (RelationHop α)) (chain : List Join) :
    List (Option Member) :=
  (hops.zip chain).flatMap fun p =>
    p.1.parameters.map (·.leaf? s input p.2.target p.2.aliasName)

/-- The leaves of a filter whose relation rules have the given chains. The rules on the entity have
    leaves on the model of the root, under its table. -/
def Filter.leavesOn (f : Filter α) (s : Schema) (input : α) (root : Root)
    (chains : List (List Join)) : List (Option Member) :=
  f.parameters.map (·.leaf? s input root.model root.table) ++
    (f.relations.zip chains).flatMap fun p => chainLeaves s input p.1.hops p.2

section

variable {s : Schema} {input : α} {root : Root} {ms : List Member}

theorem hopOffers_eq_flatMap (hops : List (RelationHop α)) (chain : List Join) :
    hopOffers s input hops chain = (hops.zip chain).flatMap fun p =>
      p.1.parameters.map (·.offer s p.2.target p.2.aliasName input) := by
  fun_induction hopOffers s input hops chain with
  | case1 hop hops join chain ih => rw [ih, List.zip_cons_cons, List.flatMap_cons]
  | case2 hops chain hnot =>
    cases hops with
    | nil => rfl
    | cons hop hops =>
      cases chain with
      | nil => rfl
      | cons join chain => exact absurd rfl (hnot hop hops join chain rfl)

theorem chainLeaves_of_hopOffers {hops : List (RelationHop α)} {chain : List Join}
    (h : hopOffers s input hops chain = ms.map .ok) :
    chainLeaves s input hops chain = ms.map some := by
  rw [hopOffers_eq_flatMap] at h
  exact flatMap_eq_map_some (fun p ms hp => map_leaf?_of_map_offer hp) h

/-- A relation rule that offers members has a chain of joins, and the members are its leaves on
    the chain. -/
theorem RelationRule.exists_chain {index : Nat} {r : RelationRule α}
    (h : r.offers s input root index = ms.map .ok) :
    ∃ chain, r.joins s (index + 1) root.model = .ok chain ∧
      IsJoinChain s root.model (index + 1) r.hops chain ∧
      chainLeaves s input r.hops chain = ms.map some := by
  rw [offers, joins] at h
  rcases walk_cases s root.model r.hops with ⟨targets, hw, hok⟩ | ⟨e, _, herr⟩
  · rw [hok] at h
    exact ⟨_, hok (index + 1) [], hw.isJoinChain (index + 1), chainLeaves_of_hopOffers h⟩
  · rw [herr] at h
    obtain _ | ⟨m, ms⟩ := ms <;> cases h

/-- The joins of relation rules that offer members are their chains, one after the other, and the
    members are the leaves on these chains. -/
theorem exists_relation_chains {index : Nat} {rs : List (RelationRule α)}
    (h : ((rs.zipIdx index).flatMap fun p => p.1.offers s input root p.2) = ms.map .ok) :
    ∃ chains, (relationSteps s root index rs).1 = chains.flatten ∧
      List.Forall₂ (fun p chain => IsJoinChain s root.model (p.2 + 1) p.1.hops chain)
        (rs.zipIdx index) chains ∧
      ((rs.zip chains).flatMap fun p => chainLeaves s input p.1.hops p.2) = ms.map some := by
  induction rs generalizing index ms with
  | nil =>
    obtain _ | ⟨m, ms⟩ := ms
    · exact ⟨[], rfl, .nil, rfl⟩
    · cases h
  | cons r rs ih =>
    rw [List.zipIdx_cons, List.flatMap_cons, eq_comm, List.map_eq_append_iff] at h
    obtain ⟨ms₁, ms₂, rfl, h₁, h₂⟩ := h
    obtain ⟨chain, hjoins, hchain, hleaves⟩ := RelationRule.exists_chain h₁.symm
    obtain ⟨chains, hflatten, hchains, hmore⟩ := ih h₂.symm
    refine ⟨chain :: chains, ?_, .cons hchain hchains, ?_⟩
    · simp only [relationSteps, hjoins, hflatten, List.flatten_cons]
    · rw [List.zip_cons_cons, List.flatMap_cons, hleaves, hmore, List.map_append]

/-- The joins of a filter whose steps all offer members are the chains of its relation rules, and
    the members are the leaves on the root and on these chains. -/
theorem Filter.exists_chains {f : Filter α} (h : f.offers s root input = ms.map .ok) :
    ∃ chains, (f.plan s root).1 = chains.flatten ∧
      List.Forall₂ (fun p chain => IsJoinChain s root.model (p.2 + 1) p.1.hops chain)
        f.relations.zipIdx chains ∧
      f.leavesOn s input root chains = ms.map some := by
  rw [offers_eq, eq_comm, List.map_eq_append_iff] at h
  obtain ⟨ms₁, ms₂, rfl, h₁, h₂⟩ := h
  obtain ⟨chains, hflatten, hchains, hleaves⟩ := exists_relation_chains h₂.symm
  refine ⟨chains, hflatten, hchains, ?_⟩
  rw [leavesOn, map_leaf?_of_map_offer h₁.symm, hleaves, List.map_append]

/-! ## Where columns are read from -/

theorem place_of_leaf? {model qualifier : String} {r : ParameterRule α} {m : Member}
    (h : r.leaf? s input model qualifier = some m) {c : Comparison}
    (hc : c ∈ m.predicate.comparisons) : c.field.model = model ∧ c.field.qualifier = qualifier := by
  obtain ⟨f, _, rfl⟩ := Option.map_eq_some_iff.mp h
  rw [Predicate.comparisons_leaf, List.mem_singleton] at hc
  exact hc ▸ ⟨rfl, rfl⟩

theorem place_of_mem_chainLeaves {hops : List (RelationHop α)} {chain : List Join} {m : Member}
    (h : some m ∈ chainLeaves s input hops chain) {c : Comparison}
    (hc : c ∈ m.predicate.comparisons) :
    ∃ join ∈ chain, c.field.model = join.target ∧ c.field.qualifier = join.aliasName := by
  obtain ⟨p, hp, hleaf⟩ := List.mem_flatMap.mp h
  obtain ⟨r, _, hr⟩ := List.mem_map.mp hleaf
  exact ⟨p.2, (List.of_mem_zip hp).2, place_of_leaf? hr hc⟩

theorem exists_member_of_mem_comparisons {c : Comparison}
    (h : c ∈ (foldMembers ms).comparisons) : ∃ m ∈ ms, c ∈ m.predicate.comparisons := by
  rwa [(perm_comparisons_foldMembers ms).mem_iff, List.mem_flatMap] at h

/-- Leaves on the root and on chains are read from the table of the root and from the joins. -/
theorem place_of_mem_comparisons {f : Filter α} {chains : List (List Join)}
    (h : f.leavesOn s input root chains = ms.map some) {c : Comparison}
    (hc : c ∈ (foldMembers ms).comparisons) :
    c.field.model = root.model ∧ c.field.qualifier = root.table ∨
      ∃ join ∈ chains.flatten, c.field.model = join.target ∧
        c.field.qualifier = join.aliasName := by
  obtain ⟨m, hm, hc⟩ := exists_member_of_mem_comparisons hc
  have hleaf : some m ∈ ms.map some := List.mem_map_of_mem hm
  rw [← h, Filter.leavesOn, List.mem_append] at hleaf
  rcases hleaf with hdirect | hchains
  · obtain ⟨r, _, hr⟩ := List.mem_map.mp hdirect
    exact .inl (place_of_leaf? hr hc)
  · obtain ⟨p, hp, hchain⟩ := List.mem_flatMap.mp hchains
    obtain ⟨join, hjoin, hplace⟩ := place_of_mem_chainLeaves hchain hc
    exact .inr ⟨join, List.mem_flatten.mpr ⟨p.2, (List.of_mem_zip hp).2, hjoin⟩, hplace⟩

end

/-! ## Compiled filters -/

/-- A filter was compiled with an input to these criteria, whose joins are the given chains and
    whose leaves are those of the given members. -/
structure Criteria.JoinsMatch (criteria : Criteria) (s : Schema) (f : Filter α) (input : α)
    (chains : List (List Join)) (ms : List Member) : Prop where
  joins_eq : criteria.joins = chains.flatten
  /-- Every relation rule has its chain, with its own number. -/
  isJoinChain : List.Forall₂
    (fun p chain => IsJoinChain s criteria.root.model (p.2 + 1) p.1.hops chain)
    f.relations.zipIdx chains
  parentFirst : ParentFirst criteria.joins
  predicate_eq : criteria.predicate = foldMembers ms
  /-- The rules on the entity have leaves on the root, and those on a hop on its join. -/
  leaves_eq : f.leavesOn s input criteria.root chains = ms.map some
  /-- Every column is read from the table of the root, or from one of the joins. -/
  qualifier : ∀ c ∈ criteria.predicate.comparisons,
    c.field.model = criteria.root.model ∧ c.field.qualifier = criteria.root.table ∨
      ∃ join ∈ criteria.joins, c.field.model = join.target ∧ c.field.qualifier = join.aliasName

/-- **Joins match leaves.** A compiled filter has one chain of joins for each relation rule, in
    order, and its leaves are read from the table of the root or from the join of their hop. -/
theorem joins_match_leaves {c : Compiler} {f : Filter α} {input : α} {criteria : Criteria}
    (h : (c.compile f input).result = .ok criteria) :
    ∃ chains ms, criteria.JoinsMatch c.schema f input chains ms := by
  obtain ⟨_, _, ms, ho, _, _, hjoins, hpredicate⟩ := (c.result_compile_eq_ok_iff input).mp h
  obtain ⟨chains, hflatten, hchains, hleaves⟩ := Filter.exists_chains ho
  rw [hflatten] at hjoins
  exact ⟨chains, ms, {
    joins_eq := hjoins
    isJoinChain := hchains
    parentFirst := hjoins ▸ parentFirst_flatten hchains
    predicate_eq := hpredicate
    leaves_eq := hleaves
    qualifier := by
      rw [hpredicate, hjoins]
      exact fun c hc => place_of_mem_comparisons hleaves hc }⟩

/-- Persons with a name and a manager, who is a person. -/
def staffSchema : Schema :=
  Schema.empty.add ([Field.required "name" (.scalar .string),
    .required "manager" (.relation "Person")].foldl Model.addField (.ofName "Person"))

/-- The persons of a name whose manager's manager, and whose manager, have that name too. -/
def staffSearch : Filter String :=
  let named : ParameterRule String :=
    { field := "name", restriction := .equals, valueType := .single .string, read := .string }
  { entity := "Person"
    parameters := [named]
    relations := [⟨[⟨"manager", .single, []⟩, ⟨"manager", .single, [named]⟩]⟩,
      ⟨[⟨"manager", .single, [named]⟩]⟩] }

theorem joinsMatch_staffSearch :
    ∃ criteria, (Compiler.compile ⟨staffSchema, .aggregate, none⟩ staffSearch "Ada").result =
        .ok criteria ∧
      criteria.joins.map Join.aliasName = ["r1__manager", "r1__manager__manager", "r2__manager"] ∧
      ∃ chains ms, criteria.JoinsMatch staffSchema staffSearch "Ada" chains ms :=
  ⟨_, rfl, rfl, joins_match_leaves (c := ⟨staffSchema, .aggregate, none⟩) (f := staffSearch) rfl⟩

end SchemaFilter
