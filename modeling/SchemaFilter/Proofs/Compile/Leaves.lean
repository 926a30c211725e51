import Mathlib.Data.List.Forall2
import SchemaFilter.Proofs.Compile.Plan

/-!
# The leaves of a compiled filter

A filter has one leaf per parameter rule, in the order of declaration: the rules on the entity, and
then relation rule by relation rule and hop by hop. `Filter.leaves` lists them without looking at
types, groups or modes, and a compiled predicate is their fold on two levels.

Results:

* `Filter.leaves_of_offers`: where every step offers a member, these are the leaves of the rules;
* `Filter.memberships_of_leaves`: every rule has its leaf, in the group that it declares;
* `predicate_eq_fold_leaves`: the predicate of a compiled filter.
-/

namespace SchemaFilter

variable {α : Type}

/-! ## Rules and leaves -/

/-- The parameter rules on the hops of a relation rule, in the order of declaration. -/
def RelationRule.rules (r : RelationRule α) : List (ParameterRule α) :=
  r.hops.flatMap (·.parameters)

/-- All parameter rules of a filter, in the order of declaration. -/
def Filter.rules (f : Filter α) : List (ParameterRule α) :=
  f.parameters ++ f.relations.flatMap RelationRule.rules

section

variable (s : Schema) (input : α)

/-- The leaves of the rules on hops from a model, if there is one, that was reached over some
    relations. The leaves of a hop are on the model that it leads to, under the alias of its
    join. -/
def hopLeaves (rule : Nat) : (model? : Option String) → (walked : List String) →
    List (RelationHop α) → List (Option Member)
  | _, _, [] => []
  | model?, walked, hop :: hops =>
    let target? := model?.bind (hop.target? s)
    let walked := walked ++ [hop.name]
    (hop.parameters.map fun r => target?.bind fun target =>
      r.leaf? s input target (Join.aliasName ⟨rule, walked, target, hop.cardinality⟩)) ++
      hopLeaves rule target? walked hops

/-- The leaves of a filter from a root: one per parameter rule, in the order of declaration. -/
def Filter.leaves (f : Filter α) (root : Root) : List (Option Member) :=
  f.parameters.map (·.leaf? s input root.model root.table) ++
    f.relations.zipIdx.flatMap fun p => hopLeaves s input (p.2 + 1) root.model [] p.1.hops

end

/-! ## Every rule has its leaf -/

/-- A leaf, if it is there, is one of the given rule. -/
def IsLeafOf (r : ParameterRule α) (leaf? : Option Member) : Prop :=
  ∀ m, leaf? = some m → m.toMembership = r.membership ∧ m.predicate.isLeaf

theorem ParameterRule.isLeafOf_leaf? (s : Schema) (input : α) (model qualifier : String)
    (r : ParameterRule α) : IsLeafOf r (r.leaf? s input model qualifier) := by
  intro m hm
  obtain ⟨f, _, rfl⟩ := Option.map_eq_some_iff.mp hm
  exact ⟨rfl, rfl⟩

theorem forall₂_map_isLeafOf {leaf? : ParameterRule α → Option Member}
    (h : ∀ r, IsLeafOf r (leaf? r)) (rules : List (ParameterRule α)) :
    List.Forall₂ IsLeafOf rules (rules.map leaf?) := by
  induction rules with
  | nil => exact .nil
  | cons r rules ih => exact .cons (h r) ih

theorem forall₂_hopLeaves (s : Schema) (input : α) (rule : Nat) (hops : List (RelationHop α))
    (model? : Option String) (walked : List String) :
    List.Forall₂ IsLeafOf (hops.flatMap (·.parameters))
      (hopLeaves s input rule model? walked hops) := by
  induction hops generalizing model? walked with
  | nil => exact .nil
  | cons hop hops ih =>
    rw [List.flatMap_cons, hopLeaves]
    refine List.rel_append (forall₂_map_isLeafOf ?_ hop.parameters) (ih _ _)
    intro r m hm
    obtain ⟨target, _, hm⟩ := Option.bind_eq_some_iff.mp hm
    exact r.isLeafOf_leaf? s input target _ m hm

theorem forall₂_zipIdx {β : Type} (l : List β) (index : Nat) :
    List.Forall₂ (fun b p => b ∈ l ∧ b = p.1) l (l.zipIdx index) := by
  induction l generalizing index with
  | nil => exact .nil
  | cons b l ih =>
    refine .cons ⟨List.mem_cons_self, rfl⟩ ((ih (index + 1)).imp fun b' p h => ?_)
    exact ⟨List.mem_cons_of_mem b h.1, h.2⟩

/-- The leaves of a filter are those of its rules, one by one. -/
theorem Filter.forall₂_leaves (f : Filter α) (s : Schema) (input : α) (root : Root) :
    List.Forall₂ IsLeafOf f.rules (f.leaves s input root) := by
  refine List.rel_append (forall₂_map_isLeafOf (fun r => r.isLeafOf_leaf? s input _ _) _) ?_
  refine List.rel_flatMap (forall₂_zipIdx f.relations 0) ?_
  rintro r p ⟨_, rfl⟩
  exact forall₂_hopLeaves s input _ _ _ _

section

variable {f : Filter α} {s : Schema} {input : α} {root : Root} {ms : List Member}

theorem forall₂_of_leaves (h : f.leaves s input root = ms.map some) :
    List.Forall₂ (fun r m => m.toMembership = r.membership ∧ m.predicate.isLeaf) f.rules ms := by
  have hleaves := f.forall₂_leaves s input root
  rw [h, List.forall₂_map_right_iff] at hleaves
  exact hleaves.imp fun r m hm => hm m rfl

/-- The leaves go to the groups that their rules declare. -/
theorem Filter.memberships_of_leaves (h : f.leaves s input root = ms.map some) :
    memberships ms = f.rules.map ParameterRule.membership := by
  have hall := forall₂_of_leaves h
  clear h
  generalize f.rules = rules at hall ⊢
  induction hall with
  | nil => rfl
  | cons head tail ih => rw [memberships, List.map_cons, List.map_cons, head.1, ← ih, memberships]

theorem Filter.length_of_leaves (h : f.leaves s input root = ms.map some) :
    ms.length = f.rules.length :=
  (forall₂_of_leaves h).length_eq.symm

theorem Filter.isLeaf_of_leaves (h : f.leaves s input root = ms.map some) :
    ∀ m ∈ ms, m.predicate.isLeaf := by
  have hall := forall₂_of_leaves h
  clear h
  generalize f.rules = rules at hall
  induction hall with
  | nil => exact List.forall_mem_nil _
  | cons head tail ih => exact List.forall_mem_cons.mpr ⟨head.2, ih⟩

end

/-! ## Offers are leaves -/

section

variable {s : Schema} {input : α} {ms : List Member}

theorem map_leaf?_of_map_offer {model qualifier : String} {rules : List (ParameterRule α)}
    (h : rules.map (·.offer s model qualifier input) = ms.map .ok) :
    rules.map (·.leaf? s input model qualifier) = ms.map some := by
  induction rules generalizing ms with
  | nil =>
    obtain _ | ⟨m, ms⟩ := ms
    · rfl
    · cases h
  | cons r rules ih =>
    obtain _ | ⟨m, ms⟩ := ms
    · cases h
    · rw [List.map_cons, List.map_cons, List.cons.injEq] at h
      rw [List.map_cons, List.map_cons, (ParameterRule.offer_eq_ok_iff.mp h.1).2, ih h.2]

theorem hopLeaves_of_hopOffers {rule : Nat} {model : String} {walked targets : List String}
    {hops : List (RelationHop α)} (hw : Walks s model hops targets)
    (h : hopOffers s input hops (chainJoins rule walked hops targets) = ms.map .ok) :
    hopLeaves s input rule model walked hops = ms.map some := by
  induction hw generalizing walked ms with
  | nil model =>
    obtain _ | ⟨m, ms⟩ := ms
    · rfl
    · cases h
  | @cons model target hop hops targets head tail ih =>
    rw [chainJoins, hopOffers, eq_comm, List.map_eq_append_iff] at h
    obtain ⟨ms₁, ms₂, rfl, h₁, h₂⟩ := h
    have hbind : (some model).bind (hop.target? s) = some target := head
    simp only [hopLeaves, hbind, Option.bind_some]
    rw [map_leaf?_of_map_offer h₁.symm, ih h₂.symm, List.map_append]

theorem RelationRule.hopLeaves_of_offers {root : Root} {index : Nat} {r : RelationRule α}
    (h : r.offers s input root index = ms.map .ok) :
    hopLeaves s input (index + 1) root.model [] r.hops = ms.map some := by
  rw [offers, joins] at h
  rcases walk_cases s root.model r.hops with ⟨targets, hw, hok⟩ | ⟨e, _, herr⟩
  · rw [hok] at h
    exact hopLeaves_of_hopOffers hw h
  · rw [herr] at h
    obtain _ | ⟨m, ms⟩ := ms <;> cases h

theorem flatMap_eq_map_some {β : Type} {offers : β → List (Except CompileError Member)}
    {leaves : β → List (Option Member)}
    (h : ∀ b (ms : List Member), offers b = ms.map .ok → leaves b = ms.map some) {l : List β}
    (hl : l.flatMap offers = ms.map .ok) : l.flatMap leaves = ms.map some := by
  induction l generalizing ms with
  | nil =>
    obtain _ | ⟨m, ms⟩ := ms
    · rfl
    · cases hl
  | cons b l ih =>
    rw [List.flatMap_cons, eq_comm, List.map_eq_append_iff] at hl
    obtain ⟨ms₁, ms₂, rfl, h₁, h₂⟩ := hl
    rw [List.flatMap_cons, h b ms₁ h₁.symm, ih h₂.symm, List.map_append]

/-- Where every step of a filter offers a member, the members are the leaves of its rules. -/
theorem Filter.leaves_of_offers {f : Filter α} {root : Root}
    (h : f.offers s root input = ms.map .ok) : f.leaves s input root = ms.map some := by
  rw [offers_eq, eq_comm, List.map_eq_append_iff] at h
  obtain ⟨ms₁, ms₂, rfl, h₁, h₂⟩ := h
  have hrelations : (f.relations.zipIdx.flatMap fun p =>
      hopLeaves s input (p.2 + 1) root.model [] p.1.hops) = ms₂.map some :=
    flatMap_eq_map_some (fun p ms hp => RelationRule.hopLeaves_of_offers hp) h₂.symm
  rw [leaves, map_leaf?_of_map_offer h₁.symm, hrelations, List.map_append]

end

/-! ## A search for books -/

/-- A field that holds one value, without attributes. -/
def Field.required (name : String) (type : FieldType) : Field :=
  ⟨⟨name, {}⟩, type, .required, [], none, {}⟩

/-- Books with a title, a year and an author, and authors with a name. -/
def librarySchema : Schema :=
  let book := [Field.required "title" (.scalar .string), .required "year" (.scalar .int),
    .required "author" (.relation "Author")].foldl Model.addField (.ofName "Book")
  let author := (Model.ofName "Author").addField (.required "name" (.scalar .string))
  (Schema.empty.add book).add author

/-- The books from a year on that have a text for their title or for the name of their author. -/
def librarySearch : Filter (String × Int64) where
  entity := "Book"
  parameters := [
    ⟨"title", .equals, "text", .or, .single .string, fun q => .string q.1⟩,
    ⟨"year", .greaterThanOrEquals, "since", .and, .single .int, fun q => .int q.2⟩]
  relations := [⟨[⟨"author", .single,
    [⟨"name", .equals, "text", .or, .single .string, fun q => .string q.1⟩]⟩]⟩]

/-! ## Compiled predicates -/

/-- **The predicate of a compiled filter** is the fold of its leaves, one per parameter rule in the
    order of declaration, on two levels. No leaf is lost or duplicated, no group has fewer than two
    members, and there are at most three levels. -/
theorem predicate_eq_fold_leaves {c : Compiler} {f : Filter α} {input : α} {criteria : Criteria}
    (h : (c.compile f input).result = .ok criteria) :
    ∃ ms : List Member, f.leaves c.schema input criteria.root = ms.map some ∧
      Consistent (memberships ms) ∧
      criteria.predicate = foldMembers ms ∧
      criteria.predicate.leafCount = f.rules.length ∧
      criteria.predicate.Branching ∧
      criteria.predicate.depth ≤ 3 := by
  obtain ⟨_, _, ms, ho, hms, hne, _, hp⟩ := (c.result_compile_eq_ok_iff input).mp h
  have hleaves := Filter.leaves_of_offers ho
  have hleaf := Filter.isLeaf_of_leaves hleaves
  refine ⟨ms, hleaves, hms, hp, ?_, ?_, ?_⟩
  · rw [hp, leafCount_foldMembers hleaf, Filter.length_of_leaves hleaves]
  · rw [hp]
    exact branching_foldMembers hne hleaf
  · rw [hp]
    exact depth_foldMembers_le hleaf

theorem predicate_librarySearch :
    ∃ criteria, (Compiler.compile ⟨librarySchema, .failFast, none⟩ librarySearch
        ("Emma", 1815)).result = .ok criteria ∧
      criteria.predicate.leafCount = librarySearch.rules.length ∧
      criteria.predicate.Branching ∧ criteria.predicate.depth ≤ 3 := by
  refine ⟨_, rfl, ?_⟩
  obtain ⟨ms, _, _, _, hcount, hbranching, hdepth⟩ := predicate_eq_fold_leaves
    (c := ⟨librarySchema, .failFast, none⟩) (f := librarySearch) rfl
  exact ⟨hcount, hbranching, hdepth⟩

end SchemaFilter
