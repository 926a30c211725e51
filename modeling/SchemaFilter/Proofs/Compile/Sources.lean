import SchemaFilter.Proofs.Compile.Aliases
import SchemaFilter.Schema.Validation

/-!
# Where columns are read from

A leaf names the table or the join that its column is read from by a qualifier. Joins have aliases
of their own, but tables are called as a schema likes, and nothing keeps a table from being called
like a join. This happens exactly if the table's name is spelled like an alias of the filter; for
all other names a qualifier tells its source.

Results:

* `Filter.mem_aliases_iff`: the texts that are aliases of a filter's joins;
* `Criteria.source?_qualifier`: the source that a qualifier names;
* `qualifier_identifies_source`: when and how the qualifiers of a compiled filter tell the sources
  of its leaves.
-/

namespace SchemaFilter

variable {α : Type}

/-! ## Sources -/

/-- From where a column is read: from the table of the root, or from a join. -/
inductive Source where
  | root
  | join (join : Join)

namespace Source

/-- The qualifier of the columns that are read from a source. -/
def qualifier (r : Root) : Source → String
  | root => r.table
  | join j => j.aliasName

/-- The model whose columns a source has. -/
def model (r : Root) : Source → String
  | root => r.model
  | join j => j.target

/-- The source is the root or one of some joins. -/
def Among (joins : List Join) : Source → Prop
  | root => True
  | join j => j ∈ joins

end Source

/-- The source that a qualifier names. -/
def Criteria.source? (criteria : Criteria) (qualifier : String) : Option Source :=
  if qualifier = criteria.root.table then some .root
  else (criteria.joins.find? (·.aliasName == qualifier)).map .join

/-- The sources of the rules of a filter, in the order of declaration, where the relation rules have
    the given chains of joins. -/
def Filter.sourcesOn (f : Filter α) (chains : List (List Join)) : List Source :=
  f.parameters.map (fun _ => .root) ++
    (f.relations.zip chains).flatMap fun p =>
      (p.1.hops.zip p.2).flatMap fun q => q.1.parameters.map fun _ => .join q.2

/-- Where aliases are distinct and the table is called otherwise, a qualifier names its source. -/
theorem Criteria.source?_qualifier {criteria : Criteria}
    (hnodup : (criteria.joins.map Join.aliasName).Nodup)
    (htable : criteria.root.table ∉ criteria.joins.map Join.aliasName) {source : Source}
    (h : source.Among criteria.joins) :
    criteria.source? (source.qualifier criteria.root) = some source := by
  cases source with
  | root => exact if_pos rfl
  | join join =>
    have hne : join.aliasName ≠ criteria.root.table := by
      rintro heq
      exact htable (heq ▸ List.mem_map_of_mem h)
    have hfind : criteria.joins.find? (·.aliasName == join.aliasName) = some join := by
      cases hf : criteria.joins.find? (·.aliasName == join.aliasName) with
      | none => exact absurd (BEq.rfl) (List.find?_eq_none.mp hf join h)
      | some found =>
        have hname : found.aliasName = join.aliasName := by simpa using List.find?_some hf
        rw [List.inj_on_of_nodup_map hnodup (List.mem_of_find?_eq_some hf) h hname]
    rw [Criteria.source?, Source.qualifier, if_neg hne, hfind, Option.map_some]

/-! ## Leaves and their sources -/

section

variable {s : Schema} {input : α} {root : Root}

theorem forall₂_flatMap {β γ δ : Type} {R : γ → δ → Prop} {g : β → List γ} {g' : β → List δ}
    {l : List β} (h : ∀ b ∈ l, List.Forall₂ R (g b) (g' b)) :
    List.Forall₂ R (l.flatMap g) (l.flatMap g') := by
  induction l with
  | nil => exact .nil
  | cons b l ih =>
    obtain ⟨hb, hl⟩ := List.forall_mem_cons.mp h
    exact List.rel_append hb (ih hl)

/-- A leaf, if it is there, is read from a source, which is the root or one of some joins. -/
def IsReadFrom (root : Root) (joins : List Join) (source : Source) (leaf? : Option Member) : Prop :=
  source.Among joins ∧ ∀ m, leaf? = some m → ∀ l ∈ m.predicate.comparisons,
    l.field.model = source.model root ∧ l.field.qualifier = source.qualifier root

theorem forall₂_isReadFrom {joins : List Join} (source : Source) (h : source.Among joins)
    (rules : List (ParameterRule α)) :
    List.Forall₂ (IsReadFrom root joins) (rules.map fun _ => source)
      (rules.map (·.leaf? s input (source.model root) (source.qualifier root))) := by
  induction rules with
  | nil => exact .nil
  | cons r rules ih => exact .cons ⟨h, fun _ hm _ hl => place_of_leaf? hm hl⟩ ih

variable (s input root) in
/-- The leaves on the root and on chains of joins are read from the sources of their rules. -/
theorem Filter.forall₂_sourcesOn (f : Filter α) (chains : List (List Join)) :
    List.Forall₂ (IsReadFrom root chains.flatten) (f.sourcesOn chains)
      (f.leavesOn s input root chains) := by
  refine List.rel_append (forall₂_isReadFrom .root trivial f.parameters) ?_
  refine forall₂_flatMap fun p hp => forall₂_flatMap fun q hq => ?_
  have hjoin : q.2 ∈ chains.flatten :=
    List.mem_flatten.mpr ⟨p.2, (List.of_mem_zip hp).2, (List.of_mem_zip hq).2⟩
  exact forall₂_isReadFrom (.join q.2) hjoin q.1.parameters

end

/-! ## Tables that are called like a join -/

/-- A text is spelled like an alias: `r`, the number of a relation rule, and the names of its first
    hops, each after two underscores. -/
def Filter.SpellsAlias (f : Filter α) (text : String) : Prop :=
  ∃ (i : Nat) (rule : RelationRule α) (k : Nat), f.relations[i]? = some rule ∧
    k < rule.hops.length ∧
    text = "r" ++ toString (i + 1) ++
      String.join ((rule.hops.take (k + 1)).map fun hop => "__" ++ hop.name)

section

variable {s : Schema} {root : String} {rule : Nat} {hops : List (RelationHop α)}
  {chain : List Join}

theorem IsJoinChain.aliasName_getElem (h : IsJoinChain s root rule hops chain) {k : Nat}
    (hk : k < chain.length) :
    chain[k].aliasName = "r" ++ toString rule ++
      String.join ((hops.take (k + 1)).map fun hop => "__" ++ hop.name) := by
  rw [Join.aliasName, h.rule_eq _ (List.getElem_mem hk),
    h.relations_eq k _ (List.getElem?_eq_getElem hk), List.map_map]
  rfl

/-- The aliases of the joins of a filter are the texts that are spelled like one. -/
theorem Filter.mem_aliases_iff {f : Filter α} {chains : List (List Join)}
    (h : List.Forall₂ (fun p chain => IsJoinChain s root (p.2 + 1) p.1.hops chain)
      f.relations.zipIdx chains) {text : String} :
    text ∈ chains.flatten.map Join.aliasName ↔ f.SpellsAlias text := by
  obtain ⟨hlength, hchain⟩ := List.forall₂_iff_get.mp h
  rw [List.length_zipIdx] at hlength
  simp only [List.get_eq_getElem, List.getElem_zipIdx, Nat.zero_add, List.length_zipIdx] at hchain
  constructor
  · intro htext
    obtain ⟨join, hjoin, rfl⟩ := List.mem_map.mp htext
    obtain ⟨chain, hmem, hjoin⟩ := List.mem_flatten.mp hjoin
    obtain ⟨i, hi, rfl⟩ := List.getElem_of_mem hmem
    obtain ⟨k, hk, rfl⟩ := List.getElem_of_mem hjoin
    have hc := hchain i (by omega) hi
    exact ⟨i, f.relations[i], k, List.getElem?_eq_getElem _, hc.length_eq ▸ hk,
      hc.aliasName_getElem hk⟩
  · rintro ⟨i, rule, k, hrule, hk, rfl⟩
    obtain ⟨hi, rfl⟩ := List.getElem?_eq_some_iff.mp hrule
    have hi' : i < chains.length := hlength ▸ hi
    have hc := hchain i hi hi'
    have hk : k < chains[i].length := hc.length_eq ▸ hk
    rw [← hc.aliasName_getElem hk]
    exact List.mem_map_of_mem
      (List.mem_flatten.mpr ⟨_, List.getElem_mem hi', List.getElem_mem hk⟩)

end

/-! ## Compiled filters -/

/-- A filter was compiled with an input to these criteria, whose joins are the given chains, one
    for each relation rule, and whose leaves are those of the given members, and the qualifiers of
    the leaves tell from where they are read. -/
structure Criteria.TellsSources (criteria : Criteria) (s : Schema) (f : Filter α) (input : α)
    (chains : List (List Join)) (ms : List Member) : Prop where
  joins_eq : criteria.joins = chains.flatten
  isJoinChain : List.Forall₂
    (fun p chain => IsJoinChain s criteria.root.model (p.2 + 1) p.1.hops chain)
    f.relations.zipIdx chains
  predicate_eq : criteria.predicate = foldMembers ms
  leaves_eq : f.leavesOn s input criteria.root chains = ms.map some
  source?_eq : List.Forall₂ (fun source m => ∀ l ∈ m.predicate.comparisons,
    l.field.model = source.model criteria.root ∧
      criteria.source? l.field.qualifier = some source) (f.sourcesOn chains) ms

/-- **Qualifiers and sources.** The table of a compiled filter's root is called like one of its
    joins exactly if its name is spelled like an alias; if it is not, the qualifier of a leaf alone
    tells from where its column is read. -/
theorem qualifier_identifies_source {c : Compiler} {f : Filter α} {input : α}
    {criteria : Criteria} (h : (c.compile f input).result = .ok criteria) :
    (criteria.root.table ∈ criteria.joins.map Join.aliasName ↔
        f.SpellsAlias criteria.root.table) ∧
      (¬f.SpellsAlias criteria.root.table →
        ∃ chains ms, criteria.TellsSources c.schema f input chains ms) := by
  obtain ⟨_, _, ms, ho, _, _, hjoins, hpredicate⟩ := (c.result_compile_eq_ok_iff input).mp h
  obtain ⟨chains, hflatten, hchains, hleaves⟩ := Filter.exists_chains ho
  rw [hflatten] at hjoins
  have hiff : criteria.root.table ∈ criteria.joins.map Join.aliasName ↔
      f.SpellsAlias criteria.root.table := hjoins ▸ Filter.mem_aliases_iff hchains
  have hnodup : (criteria.joins.map Join.aliasName).Nodup :=
    hjoins ▸ (nodup_aliases_flatten hchains).1
  refine ⟨hiff, fun htable => ⟨chains, ms, hjoins, hchains, hpredicate, hleaves, ?_⟩⟩
  have hread := f.forall₂_sourcesOn c.schema input criteria.root chains
  rw [hleaves, List.forall₂_map_right_iff, ← hjoins] at hread
  refine hread.imp fun source m hsource l hl => ?_
  obtain ⟨hmodel, hqualifier⟩ := hsource.2 m rfl l hl
  rw [hqualifier]
  exact ⟨hmodel, Criteria.source?_qualifier hnodup (mt hiff.mp htable) hsource.1⟩

/-- Users, whose table is called like a join, and offices. -/
def officeText : String :=
  "model User \x7b\n  name String\n  office Office\n  home Office\n" ++
    "  @@map(\"r1__office\")\n\x7d\n" ++
    "model Office \x7b\n  name String\n\x7d"

/-- The users of a name who work in offices of that name, reached over the given relations. -/
def officeSearch (relations : List String) : Filter String :=
  let named : ParameterRule String :=
    { field := "name", restriction := .equals, valueType := .single .string, read := .string }
  { entity := "User"
    parameters := [named]
    relations := relations.map fun name => ⟨[⟨name, .single, [named]⟩]⟩ }

/-- The table of the root, the aliases of the joins, and the models and qualifiers of the leaves of
    a compiled search. -/
def officeOutline (relations : List String) :
    Option (String × List String × List (String × String)) :=
  (Schema.parseValid officeText).toOption.bind fun schema =>
    (Compiler.compile ⟨schema, .failFast, none⟩ (officeSearch relations) "Kay").result.toOption.map
      fun criteria => (criteria.root.table, criteria.joins.map Join.aliasName,
        criteria.predicate.comparisons.map fun l => (l.field.model, l.field.qualifier))

theorem exists_of_officeOutline {relations aliases : List String} {table : String}
    {leaves : List (String × String)}
    (h : officeOutline relations = some (table, aliases, leaves)) :
    ∃ schema criteria, Schema.parseValid officeText = .ok schema ∧
      (Compiler.compile ⟨schema, .failFast, none⟩ (officeSearch relations) "Kay").result =
        .ok criteria ∧
      criteria.root.table = table ∧
      criteria.joins.map Join.aliasName = aliases ∧
      criteria.predicate.comparisons.map (fun l => (l.field.model, l.field.qualifier)) =
        leaves := by
  obtain ⟨schema, hschema, h⟩ := Option.bind_eq_some_iff.mp h
  obtain ⟨criteria, hcriteria, h⟩ := Option.map_eq_some_iff.mp h
  cases h
  exact ⟨schema, criteria, eq_ok_of_toOption hschema, eq_ok_of_toOption hcriteria, rfl, rfl, rfl⟩

/-- Of a valid schema, a compiled filter can have a leaf on the root and a leaf on a join that are
    read under one name. -/
theorem exists_table_eq_alias :
    ∃ schema criteria, Schema.parseValid officeText = .ok schema ∧
      (Compiler.compile ⟨schema, .failFast, none⟩ (officeSearch ["office"]) "Kay").result =
        .ok criteria ∧
      (∃ join ∈ criteria.joins, criteria.root.table = join.aliasName) ∧
      criteria.predicate.comparisons.map (fun l => (l.field.model, l.field.qualifier)) =
        [("User", "r1__office"), ("Office", "r1__office")] := by
  have houtline : officeOutline ["office"] = some ("r1__office", ["r1__office"],
      [("User", "r1__office"), ("Office", "r1__office")]) := by decide +kernel
  obtain ⟨schema, criteria, hschema, hcriteria, htable, haliases, hleaves⟩ :=
    exists_of_officeOutline houtline
  have hmem : criteria.root.table ∈ criteria.joins.map Join.aliasName := by
    rw [haliases, htable]
    exact List.mem_singleton_self _
  obtain ⟨join, hjoin, heq⟩ := List.mem_map.mp hmem
  exact ⟨schema, criteria, hschema, hcriteria, ⟨join, hjoin, heq.symm⟩, hleaves⟩

/-- With another relation in the first place, the same table has a name of its own. -/
theorem tellsSources_officeSearch :
    ∃ schema criteria, Schema.parseValid officeText = .ok schema ∧
      (Compiler.compile ⟨schema, .failFast, none⟩ (officeSearch ["home", "office"]) "Kay").result =
        .ok criteria ∧
      criteria.root.table = "r1__office" ∧
      criteria.joins.map Join.aliasName = ["r1__home", "r2__office"] ∧
      ∃ chains ms,
        criteria.TellsSources schema (officeSearch ["home", "office"]) "Kay" chains ms := by
  have houtline : officeOutline ["home", "office"] = some ("r1__office", ["r1__home", "r2__office"],
      [("User", "r1__office"), ("Office", "r1__home"), ("Office", "r2__office")]) := by
    decide +kernel
  obtain ⟨schema, criteria, hschema, hcriteria, htable, haliases, _⟩ :=
    exists_of_officeOutline houtline
  refine ⟨schema, criteria, hschema, hcriteria, htable, haliases, ?_⟩
  obtain ⟨hiff, htells⟩ := qualifier_identifies_source hcriteria
  exact htells (mt hiff.mpr (by rw [htable, haliases]; decide))

end SchemaFilter
