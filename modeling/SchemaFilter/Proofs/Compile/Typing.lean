import SchemaFilter.Proofs.Compile.Acceptance
import SchemaFilter.Proofs.Compile.Joins

/-!
# Well-typed leaves

Every leaf of a compiled filter compares a scalar field of its model with a value of the field's
type. Ordering and membership hold the value against the cardinality of the field as well. Equality
looks at its type alone: there the cardinality is that of the declared type of the rule, and a rule
that reads a list where it declares a single value, or the reverse, is taken at its word.

Results:

* `Value.fits_iff`: the values that fit a type;
* `ParameterRule.exists_typed_of_applies`: the leaf of a rule that applies is well typed;
* `leaves_wellTyped`: so are all leaves of a compiled filter.
-/

namespace SchemaFilter

variable {α : Type}

/-! ## Values of a type -/

/-- The single values of a type, null not among them. -/
inductive ScalarType.Has : ScalarType → Value → Prop where
  | int (n : Int64) : Has .int (.int n)
  | bigInt (n : Int64) : Has .bigInt (.int n)
  | float (x : Binary64) : Has .float (.float x)
  | decimal (d : FixedPoint) : Has .decimal (.decimal d)
  | string (s : String) : Has .string (.string s)
  | boolean (b : Bool) : Has .boolean (.bool b)
  | dateTime (m : Moment) : Has .dateTime (.dateTime m)
  | date (d : Date) : Has .date (.date d)
  | time (t : TimeOfDay) : Has .time (.time t)
  | json (j : Json) : Has .json (.json j)
  | bytes (bs : List UInt8) : Has .bytes (.bytes bs)
  | uuid (u : Uuid) : Has .uuid (.uuid u)

/-- The values that a field of a type and cardinality can hold: null, or one value, or a list of
    single values. -/
def Cardinality.Holds (type : ScalarType) (v : Value) : Cardinality → Prop
  | single => v = .null ∨ type.Has v
  | collection => v = .null ∨ ∃ es, v = .list es ∧ ∀ e ∈ es, e = .null ∨ type.Has e

namespace Value

theorem fitsSingle_iff (type : ScalarType) (v : Value) :
    v.fitsSingle type ↔ v = .null ∨ type.Has v := by
  constructor
  · intro h
    cases v with
    | null => exact .inl rfl
    | int n =>
      simp only [fitsSingle, Bool.or_eq_true, beq_iff_eq] at h
      rcases h with rfl | rfl
      · exact .inr (.int n)
      · exact .inr (.bigInt n)
    | list es => cases h
    | _ =>
      simp only [fitsSingle, beq_iff_eq] at h
      subst h
      exact .inr (by constructor)
  · rintro (rfl | h)
    · rfl
    · cases h <;> rfl

/-- The values that fit a type: what fields of it can hold, whatever their cardinality. -/
theorem fits_iff (type : ScalarType) (v : Value) :
    v.fits type ↔ ∃ c : Cardinality, c.Holds type v := by
  constructor
  · intro h
    cases v with
    | list es =>
      rw [fits, List.all_eq_true] at h
      exact ⟨.collection, .inr ⟨es, rfl, fun e he => (fitsSingle_iff type e).mp (h e he)⟩⟩
    | _ => exact ⟨.single, (fitsSingle_iff type _).mp h⟩
  · rintro ⟨_ | _, h⟩
    · rcases h with rfl | h
      · rfl
      · cases h <;> rfl
    · rcases h with rfl | ⟨es, rfl, h⟩
      · rfl
      · rw [fits, List.all_eq_true]
        exact fun e he => (fitsSingle_iff type e).mpr (h e he)

theorem ne_list_of_has {type : ScalarType} {v : Value} (h : type.Has v) : v.isList = false := by
  cases h <;> rfl

theorem not_isNull_iff (v : Value) : !v.isNull ↔ v ≠ .null := by
  cases v <;> simp [isNull]

end Value

/-! ## Types of leaves -/

/-- What a restriction compares a field of a type and cardinality with: equality with what the field
    can hold, ordering one orderable value with another, NaN excepted, and membership one value with
    a list of values. -/
def Restriction.Compares (type : ScalarType) (c : Cardinality) (v : Value) : Restriction → Prop
  | equals | notEquals => c.Holds type v
  | greaterThan | greaterThanOrEquals | lessThan | lessThanOrEquals =>
    c = .single ∧ type.isOrderable ∧ type.Has v ∧ ∀ x, v = .float x → x.isNaN = false
  | isIn | notIn => c = .single ∧ ∃ es, v = .list es ∧ ∀ e ∈ es, type.Has e

/-- A leaf refers to a scalar field of its model, by its column, and compares it by its type as one
    of the given cardinality. -/
structure Comparison.Typed (s : Schema) (l : Comparison) (f : Field) (c : Cardinality) : Prop where
  field_eq : s.field? l.field.model l.field.field = some f
  column_eq : l.field.column = f.column
  compares : ∃ type, f.type = .scalar type ∧ l.restriction.Compares type c l.value

/-- A leaf compares the field of a rule with the value that the rule reads. -/
structure Comparison.IsOf (l : Comparison) (input : α) (r : ParameterRule α) : Prop where
  field_eq : l.field.field = r.field
  restriction_eq : l.restriction = r.restriction
  value_eq : l.value = r.read input

/-- A value is of the cardinality of a declared type; null is of each. -/
def ValueType.Describes (t : ValueType) (v : Value) : Prop :=
  v = .null ∨ v.isList = t.cardinality.isCollection

/-- A value that fits a type can be held by fields of the given cardinality, or is of the other
    one. -/
theorem exists_holds_of_fits {type : ScalarType} {v : Value} (h : v.fits type) (c : Cardinality) :
    ∃ c' : Cardinality, c'.Holds type v ∧ (c' = c ∨ ¬ValueType.Describes ⟨type, c⟩ v) := by
  obtain ⟨c', hc'⟩ := (Value.fits_iff type v).mp h
  by_cases hnull : v = .null
  · refine ⟨c, ?_, .inl rfl⟩
    cases c <;> exact .inl hnull
  · have hlist : v.isList = c'.isCollection := by
      cases c' with
      | single => exact Value.ne_list_of_has (hc'.resolve_left hnull)
      | collection =>
        obtain ⟨es, rfl, _⟩ := hc'.resolve_left hnull
        rfl
    refine ⟨c', hc', ?_⟩
    by_cases hcc : c' = c
    · exact .inl hcc
    · refine .inr ?_
      rintro (h | h)
      · exact hnull h
      · rw [hlist] at h
        cases c' <;> cases c <;> first | exact hcc rfl | cases h

theorem has_of_isOrdered {type : ScalarType} {v : Value} (ho : v.isOrdered) (hf : v.fits type) :
    type.Has v ∧ ∀ x, v = .float x → x.isNaN = false := by
  obtain ⟨c, hc⟩ := (Value.fits_iff type v).mp hf
  have hhas : type.Has v := by
    cases c with
    | single => exact hc.resolve_left (by rintro rfl; cases ho)
    | collection => rcases hc with rfl | ⟨es, rfl, _⟩ <;> cases ho
  refine ⟨hhas, ?_⟩
  rintro x rfl
  simpa [Value.isOrdered] using ho

/-- A value that a restriction admits for a field that the rule suits is compared as one of the
    field's cardinality; only under equality it can be another, if the rule does not read what it
    declares. -/
theorem ParameterRule.exists_compares {r : ParameterRule α} {type : ScalarType} {c : Cardinality}
    {v : Value} (hs : r.Suits type c) (ha : r.restriction.Admits type v) :
    ∃ c', r.restriction.Compares type c' v ∧
      (c' = c ∨ (r.restriction = .equals ∨ r.restriction = .notEquals) ∧
        ¬r.valueType.Describes v) := by
  have hsingle := hs.eq_single
  have htype := hs.valueType_eq
  have horder := hs.orderable
  generalize r.restriction = restriction at *
  cases restriction with
  | equals | notEquals =>
    obtain ⟨c', hc', hor⟩ := exists_holds_of_fits ha c
    refine ⟨c', hc', hor.imp_right fun hd => ⟨by simp, ?_⟩⟩
    rw [htype]
    exact hd
  | greaterThan | greaterThanOrEquals | lessThan | lessThanOrEquals =>
    obtain ⟨hhas, hnan⟩ := has_of_isOrdered ha.1 ha.2
    exact ⟨c, ⟨hsingle (by simp), horder rfl, hhas, hnan⟩, .inl rfl⟩
  | isIn | notIn =>
    obtain ⟨es, hes, helements⟩ := ha
    refine ⟨c, ⟨hsingle (by simp), es, hes, fun e he => ?_⟩, .inl rfl⟩
    obtain ⟨hnull, hfits⟩ := helements e he
    exact ((Value.fitsSingle_iff type e).mp hfits).resolve_left ((Value.not_isNull_iff e).mp hnull)

/-! ## Leaves of rules -/

section

variable {s : Schema} {input : α}

/-- The leaf of a rule that applies is well typed. -/
theorem ParameterRule.exists_typed_of_applies {model qualifier : String} {r : ParameterRule α}
    {m : Member} (ha : r.Applies s input model) (hm : r.leaf? s input model qualifier = some m)
    {l : Comparison} (hl : l ∈ m.predicate.comparisons) :
    l.IsOf input r ∧ ∃ f c, l.Typed s f c ∧
      (c = f.cardinality ∨ (l.restriction = .equals ∨ l.restriction = .notEquals) ∧
        ¬r.valueType.Describes l.value) := by
  obtain ⟨f, type, hf, htype, hsuits, hadmits⟩ := ha
  rw [leaf?, hf, Option.map_some, Option.some.injEq] at hm
  subst hm
  rw [Predicate.comparisons_leaf, List.mem_singleton] at hl
  subst hl
  obtain ⟨c, hcompares, hc⟩ := exists_compares hsuits hadmits
  exact ⟨⟨rfl, rfl, rfl⟩, f, c, ⟨hf, rfl, type, htype, hcompares⟩, hc⟩

/-- What a filter offers is offered by its rules. -/
theorem Filter.exists_rule_of_mem_offers {f : Filter α} {root : Root} {m : Member}
    (h : .ok m ∈ f.offers s root input) :
    ∃ r ∈ f.rules, ∃ model qualifier, r.offer s model qualifier input = .ok m := by
  rw [offers_eq, List.mem_append, List.mem_flatMap] at h
  rcases h with h | ⟨p, hp, h⟩
  · obtain ⟨r, hr, ho⟩ := List.mem_map.mp h
    exact ⟨r, mem_rules.mpr (.inl hr), _, _, ho⟩
  · rw [RelationRule.offers] at h
    cases hj : p.1.joins s (p.2 + 1) root.model with
    | error e =>
      rw [hj] at h
      cases List.mem_singleton.mp h
    | ok joins =>
      simp only [hj, hopOffers_eq_flatMap, List.mem_flatMap] at h
      obtain ⟨q, hq, h⟩ := h
      obtain ⟨r, hr, ho⟩ := List.mem_map.mp h
      have hrule : r ∈ p.1.rules := RelationRule.mem_rules.mpr ⟨q.1, (List.of_mem_zip hq).1, hr⟩
      exact ⟨r, mem_rules.mpr (.inr ⟨p.1, List.fst_mem_of_mem_zipIdx hp, hrule⟩), _, _, ho⟩

end

/-! ## Compiled filters -/

/-- **Leaves are well typed.** Every leaf of a compiled filter is one of its rules, refers to a
    scalar field of its model, and compares it by its type, as one of its own cardinality. Only a
    rule of equality whose value is not of the declared cardinality compares it as one of the
    other. -/
theorem leaves_wellTyped {c : Compiler} {f : Filter α} {input : α} {criteria : Criteria}
    (h : (c.compile f input).result = .ok criteria) :
    ∀ l ∈ criteria.predicate.comparisons, ∃ r ∈ f.rules, l.IsOf input r ∧
      ∃ field cardinality, l.Typed c.schema field cardinality ∧
        (cardinality = field.cardinality ∨
          (l.restriction = .equals ∨ l.restriction = .notEquals) ∧
            ¬r.valueType.Describes l.value) := by
  obtain ⟨_, _, ms, ho, _, _, _, hpredicate⟩ := (c.result_compile_eq_ok_iff input).mp h
  intro l hl
  rw [hpredicate] at hl
  obtain ⟨m, hm, hl⟩ := exists_member_of_mem_comparisons hl
  obtain ⟨r, hr, model, qualifier, hoffer⟩ :=
    Filter.exists_rule_of_mem_offers (ho ▸ List.mem_map_of_mem hm)
  obtain ⟨happlies, hleaf⟩ := ParameterRule.offer_eq_ok_iff.mp hoffer
  exact ⟨r, hr, ParameterRule.exists_typed_of_applies happlies hleaf hl⟩

/-- The books of two titles, after a year, and of two years at once: the last rule declares one
    number and reads a list. -/
def misreadSearch : Filter Unit where
  entity := "Book"
  parameters := [
    ⟨"title", .isIn, "all", .and, .collection .string,
      fun _ => .list [.string "Emma", .string "Persuasion"]⟩,
    ⟨"year", .greaterThan, "all", .and, .single .int, fun _ => .int 1800⟩,
    ⟨"year", .equals, "all", .and, .single .int, fun _ => .list [.int 1815, .int 1817]⟩]
  relations := []

/-- A compiled filter can compare a field that holds one value with a list. -/
theorem exists_list_compared_with_single :
    ∃ criteria l, (Compiler.compile ⟨librarySchema, .failFast, none⟩ misreadSearch ()).result =
        .ok criteria ∧
      l ∈ criteria.predicate.comparisons ∧ l.field.field = "year" ∧ l.restriction = .equals ∧
      ∀ field, ¬l.Typed librarySchema field field.cardinality := by
  refine ⟨_, ⟨⟨"Book", "year", "year", "Book"⟩, .equals, .list [.int 1815, .int 1817]⟩, rfl, ?_,
    rfl, rfl, ?_⟩
  · exact List.mem_of_getElem? (i := 2) rfl
  · intro field h
    cases h.field_eq
    obtain ⟨type, _, hnull | hhas⟩ := h.compares
    · cases hnull
    · cases hhas

theorem wellTyped_misreadSearch :
    ∃ criteria, (Compiler.compile ⟨librarySchema, .failFast, none⟩ misreadSearch ()).result =
        .ok criteria ∧
      criteria.predicate.comparisons.length = 3 ∧
      ∀ l ∈ criteria.predicate.comparisons, ∃ r ∈ misreadSearch.rules, l.IsOf () r ∧
        ∃ field cardinality, l.Typed librarySchema field cardinality ∧
          (cardinality = field.cardinality ∨
            (l.restriction = .equals ∨ l.restriction = .notEquals) ∧
              ¬r.valueType.Describes l.value) :=
  ⟨_, rfl, rfl, leaves_wellTyped (c := ⟨librarySchema, .failFast, none⟩) (f := misreadSearch) rfl⟩

end SchemaFilter
