import SchemaFilter.Proofs.Compile.Joins
import SchemaFilter.Proofs.Predicate.TokenText

/-!
# Aliases of joins

An alias does not tell the relations of its join: the relations `a` and `b` are walked under the
same alias as a single relation `a__b`. But it tells the number of the rule, which ends at the first
underscore, and within one rule every join walks on from the one before it. So no two joins of a
filter share an alias.

Results:

* `Join.rule_eq_of_aliasName_eq`: an alias tells the rule that its join belongs to;
* `IsJoinChain.nodup_aliases`: the aliases within a chain of joins are distinct;
* `nodup_join_aliases`: so are those of all joins of a compiled filter.
-/

namespace SchemaFilter

variable {α : Type}

/-! ## Aliases as texts -/

/-- The relations as they stand in an alias, each after two underscores. -/
def markedNames (names : List String) : List Char :=
  names.flatMap fun name => '_' :: '_' :: name.toList

theorem markedNames_append (names more : List String) :
    markedNames (names ++ more) = markedNames names ++ markedNames more := List.flatMap_append

theorem length_markedNames_pos {names : List String} (h : names ≠ []) :
    0 < (markedNames names).length := by
  obtain ⟨name, more, rfl⟩ := List.exists_cons_of_ne_nil h
  simp [markedNames]

theorem Join.toList_aliasName (join : Join) :
    join.aliasName.toList =
      'r' :: ((toString join.rule).toList ++ markedNames join.relations) := by
  simp [aliasName, String.toList_join, List.flatMap_map, markedNames]

/-- The number of a rule ends before the names. -/
theorem isDigit_of_mem_head?_markedNames {names : List String} :
    ∀ c ∈ (markedNames names).head?, c.isDigit = false := by
  intro c hc
  cases names with
  | nil => cases hc
  | cons name names =>
    cases hc
    rfl

/-- An alias tells the rule that its join belongs to. -/
theorem Join.rule_eq_of_aliasName_eq {j k : Join} (h : j.aliasName = k.aliasName) :
    j.rule = k.rule := by
  have htext := congrArg String.toList h
  rw [j.toList_aliasName, k.toList_aliasName] at htext
  have hdigits := congrArg (List.takeWhile Char.isDigit) (List.cons.inj htext).2
  rw [takeWhile_toString isDigit_of_mem_head?_markedNames,
    takeWhile_toString isDigit_of_mem_head?_markedNames] at hdigits
  exact toString_nat_injective hdigits

/-- A join of the same rule that walks on has another alias. -/
theorem Join.aliasName_ne_of_relations_eq {j k : Join} {more : List String}
    (hrule : j.rule = k.rule) (hrelations : k.relations = j.relations ++ more)
    (hmore : more ≠ []) : j.aliasName ≠ k.aliasName := by
  intro h
  have hlength := congrArg (fun name => name.toList.length) h
  have hpos := length_markedNames_pos hmore
  simp only [toList_aliasName, hrule, hrelations, markedNames_append, List.length_cons,
    List.length_append] at hlength
  omega

/-! ## Chains of joins -/

section

variable {s : Schema} {root : String} {rule : Nat} {hops : List (RelationHop α)}
  {chain : List Join}

/-- The aliases within a chain of joins are distinct. -/
theorem IsJoinChain.nodup_aliases (h : IsJoinChain s root rule hops chain) :
    (chain.map Join.aliasName).Nodup := by
  rw [List.Nodup, List.pairwise_map, List.pairwise_iff_getElem]
  intro i k hi hk hik
  have hlength := h.length_eq
  have hrelations : chain[k].relations =
      chain[i].relations ++ ((hops.take (k + 1)).drop (i + 1)).map (·.name) := by
    rw [h.relations_eq i _ (List.getElem?_eq_getElem hi),
      h.relations_eq k _ (List.getElem?_eq_getElem hk), ← List.map_append]
    congr 1
    have htake : hops.take (i + 1) = (hops.take (k + 1)).take (i + 1) := by
      rw [List.take_take, Nat.min_eq_left (by omega)]
    rw [htake, List.take_append_drop]
  refine Join.aliasName_ne_of_relations_eq ?_ hrelations ?_
  · rw [h.rule_eq _ (List.getElem_mem hi), h.rule_eq _ (List.getElem_mem hk)]
  · rw [← List.length_pos_iff, List.length_map, List.length_drop, List.length_take]
    omega

/-- In the chains of relation rules that are numbered from some index on, aliases are distinct. -/
theorem nodup_aliases_flatten {rs : List (RelationRule α)} {index : Nat}
    {chains : List (List Join)}
    (h : List.Forall₂ (fun p chain => IsJoinChain s root (p.2 + 1) p.1.hops chain)
      (rs.zipIdx index) chains) :
    (chains.flatten.map Join.aliasName).Nodup ∧ ∀ join ∈ chains.flatten, index < join.rule := by
  induction rs generalizing index chains with
  | nil =>
    cases h
    exact ⟨List.nodup_nil, List.forall_mem_nil _⟩
  | cons r rs ih =>
    rw [List.zipIdx_cons] at h
    cases h with
    | @cons _ chain _ chains head tail =>
      obtain ⟨hnodup, hlater⟩ := ih tail
      rw [List.flatten_cons, List.map_append]
      refine ⟨List.nodup_append.mpr ⟨head.nodup_aliases, hnodup, ?_⟩, ?_⟩
      · -- the later chains have greater numbers
        intro a ha b hb hab
        obtain ⟨j, hj, rfl⟩ := List.mem_map.mp ha
        obtain ⟨k, hk, rfl⟩ := List.mem_map.mp hb
        have hrule := Join.rule_eq_of_aliasName_eq hab
        have hfirst := head.rule_eq j hj
        have hlater := hlater k hk
        omega
      · intro join hjoin
        rcases List.mem_append.mp hjoin with hjoin | hjoin
        · have hfirst := head.rule_eq join hjoin
          omega
        · have hlater := hlater join hjoin
          omega

end

/-! ## Compiled filters -/

/-- The joins of a compiled filter are the chains of its relation rules. -/
theorem Compiler.exists_chains {c : Compiler} {f : Filter α} {input : α} {criteria : Criteria}
    (h : (c.compile f input).result = .ok criteria) :
    ∃ chains, criteria.joins = chains.flatten ∧
      List.Forall₂
        (fun p chain => IsJoinChain c.schema criteria.root.model (p.2 + 1) p.1.hops chain)
        f.relations.zipIdx chains := by
  obtain ⟨_, _, ms, ho, _, _, hjoins, _⟩ := (c.result_compile_eq_ok_iff input).mp h
  obtain ⟨chains, hflatten, hchains, _⟩ := Filter.exists_chains ho
  exact ⟨chains, hjoins.trans hflatten, hchains⟩

/-- **Aliases never clash.** The aliases of all joins of a compiled filter are distinct, however
    many rules it has, however deep these go, and whatever the relations are called. -/
theorem nodup_join_aliases {c : Compiler} {f : Filter α} {input : α} {criteria : Criteria}
    (h : (c.compile f input).result = .ok criteria) :
    (criteria.joins.map Join.aliasName).Nodup := by
  obtain ⟨chains, hjoins, hchains⟩ := Compiler.exists_chains h
  rw [hjoins]
  exact (nodup_aliases_flatten hchains).1

/-- Nodes with relations to nodes, whose names could be parts of one another. -/
def nodeSchema : Schema :=
  Schema.empty.add ([Field.required "id" (.scalar .int), .required "a" (.relation "Node"),
    .required "b" (.relation "Node"), .required "a__b" (.relation "Node"),
    .required "_1__a" (.relation "Node")].foldl Model.addField (.ofName "Node"))

/-- Eleven relation rules; the first walks `a` and `b`, the last ones `a__b` and `_1__a`. -/
def nodeSearch : Filter Int64 :=
  let isNode : ParameterRule Int64 :=
    { field := "id", restriction := .equals, valueType := .single .int, read := .int }
  { entity := "Node"
    parameters := []
    relations := ⟨[⟨"a", .single, [isNode]⟩, ⟨"b", .single, [isNode]⟩]⟩ ::
      List.replicate 8 ⟨[⟨"a", .single, [isNode]⟩]⟩ ++
      [⟨[⟨"a__b", .single, [isNode]⟩]⟩, ⟨[⟨"_1__a", .single, [isNode]⟩]⟩] }

theorem nodup_join_aliases_nodeSearch :
    ∃ criteria, (Compiler.compile ⟨nodeSchema, .failFast, none⟩ nodeSearch 7).result =
        .ok criteria ∧
      (criteria.joins.map Join.aliasName).take 2 = ["r1__a", "r1__a__b"] ∧
      (criteria.joins.map Join.aliasName).drop 10 = ["r10__a__b", "r11___1__a"] ∧
      (criteria.joins.map Join.aliasName).Nodup :=
  ⟨_, rfl, rfl, rfl, nodup_join_aliases (c := ⟨nodeSchema, .failFast, none⟩) (f := nodeSearch) rfl⟩

end SchemaFilter
