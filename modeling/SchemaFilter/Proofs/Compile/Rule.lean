import SchemaFilter.Proofs.Compile.Run
import SchemaFilter.Proofs.Schema.Lookup

/-!
# Rules that apply

When a parameter rule can be applied to a model, said by what the schema declares and by the value
that the rule reads, and which leaf it makes.

Results:

* `Restriction.unmet?_eq_none_iff`: the values that a restriction admits;
* `ParameterRule.check_eq_ok_iff`: the rules that suit the fields they name;
* `ParameterRule.offer_eq_ok_iff`: a rule offers a member exactly if it applies, and then its leaf.
-/

namespace SchemaFilter

variable {α : Type}

/-! ## Fields of models -/

/-- The field of a model, by the names of both. -/
def Schema.field? (s : Schema) (model name : String) : Option Field :=
  (s.model? model).bind (·.field? name)

theorem Schema.resolve_of_field?_eq_some {s : Schema} {model name : String} {f : Field}
    (h : s.field? model name = some f) :
    s.resolve model name =
      .ok ⟨model, name, f.column, f.type, f.cardinality, f.modifier.isOptional⟩ := by
  obtain ⟨m, hm, hf⟩ := Option.bind_eq_some_iff.mp h
  have hmodel : m.name = model := NameTable.name_of_find? hm
  have hfield : f.name = name := NameTable.name_of_find? hf
  rw [resolve_eq_ok_iff.mpr ⟨m, f, hm, hf, rfl⟩, fieldInfo, hmodel, hfield]

theorem Schema.resolve_of_field?_eq_none {s : Schema} {model name : String}
    (h : s.field? model name = none) : ∃ e, s.resolve model name = .error e := by
  rw [field?, Option.bind_eq_none_iff] at h
  cases hm : s.model? model with
  | none => exact ⟨_, resolve_eq_error_iff.mpr (.inl ⟨rfl, hm⟩)⟩
  | some m => exact ⟨_, resolve_eq_error_iff.mpr (.inr ⟨rfl, m, hm, h m hm⟩)⟩

/-! ## Values and types -/

/-- The values that a restriction admits for a field of the given type: under equality what the
    field can hold, under ordering such values that stand in an order, and under membership lists of
    single values, none of them null. -/
def Restriction.Admits (r : Restriction) (type : ScalarType) (v : Value) : Prop :=
  match r with
  | equals | notEquals => v.fits type
  | greaterThan | greaterThanOrEquals | lessThan | lessThanOrEquals => v.isOrdered ∧ v.fits type
  | isIn | notIn => ∃ elements, v = .list elements ∧ ∀ e ∈ elements, !e.isNull ∧ e.fitsSingle type

theorem Restriction.unmet?_eq_none_iff (r : Restriction) (type : ScalarType) (v : Value) :
    r.unmet? type v = none ↔ r.Admits type v := by
  have hlist : ∀ elements, v.list? = some elements ↔ v = .list elements := by
    intro elements
    cases v <;> simp [Value.list?]
  have hmember : isIn.unmet? type v = none ↔
      ∃ elements, v = .list elements ∧ ∀ e ∈ elements, !e.isNull ∧ e.fitsSingle type := by
    cases hv : v.list? with
    | none => simp [unmet?, ← hlist, hv]
    | some elements => simp [unmet?, ← hlist, hv]
  cases r with
  | equals | notEquals => simp [unmet?, Admits]
  | greaterThan | greaterThanOrEquals | lessThan | lessThanOrEquals => simp [unmet?, Admits]
  | isIn | notIn => exact hmember

/-- A rule suits a field of the given type and cardinality: a collection is only compared for
    equality, the declared type of the value is the field's own type, or a collection of it for
    membership, and only orderable types are compared by order. -/
structure ParameterRule.Suits (r : ParameterRule α) (type : ScalarType) (c : Cardinality) :
    Prop where
  equality_of_collection : c = .collection →
    r.restriction = .equals ∨ r.restriction = .notEquals
  valueType_eq : r.valueType = if r.restriction.isMembership then .collection type else ⟨type, c⟩
  orderable : r.restriction.isOrdering → type.isOrderable

/-- A rule of ordering or membership suits only fields that hold one value. -/
theorem ParameterRule.Suits.eq_single {r : ParameterRule α} {type : ScalarType} {c : Cardinality}
    (h : r.Suits type c) (hne : ¬(r.restriction = .equals ∨ r.restriction = .notEquals)) :
    c = .single := by
  cases c with
  | single => rfl
  | collection => exact absurd (h.equality_of_collection rfl) hne

theorem Restriction.needsSingle_eq_false_iff (r : Restriction) :
    r.needsSingle = false ↔ r = .equals ∨ r = .notEquals := by
  cases r <;> simp [needsSingle, isMembership, isOrdering]

/-- What the check of a rule looks at, once the field is known to be scalar. -/
theorem ParameterRule.suits_iff (r : ParameterRule α) (type : ScalarType) (c : Cardinality) :
    r.Suits type c ↔
      (c.isCollection && r.restriction.needsSingle) = false ∧
        r.valueType = r.restriction.expectedType type c ∧
        (r.restriction.isOrdering && !type.isOrderable) = false := by
  have hsingle : (c = .collection → r.restriction = .equals ∨ r.restriction = .notEquals) ↔
      (c.isCollection && r.restriction.needsSingle) = false := by
    rw [← Restriction.needsSingle_eq_false_iff]
    cases c <;> simp [Cardinality.isCollection]
  have horder : (r.restriction.isOrdering → type.isOrderable) ↔
      (r.restriction.isOrdering && !type.isOrderable) = false := by
    cases r.restriction.isOrdering <;> simp
  constructor
  · intro h
    exact ⟨hsingle.mp h.equality_of_collection, h.valueType_eq, horder.mp h.orderable⟩
  · rintro ⟨h₁, h₂, h₃⟩
    exact ⟨hsingle.mpr h₁, h₂, horder.mpr h₃⟩

theorem ParameterRule.check_eq_ok_iff {s : Schema} {model : String} {r : ParameterRule α}
    {field : FieldInfo} :
    r.check s model = .ok field ↔
      ∃ f type, s.field? model r.field = some f ∧ f.type = .scalar type ∧
        r.Suits type f.cardinality ∧
        field = ⟨model, r.field, f.column, f.type, f.cardinality, f.modifier.isOptional⟩ := by
  cases hf : s.field? model r.field with
  | none =>
    obtain ⟨e, he⟩ := Schema.resolve_of_field?_eq_none hf
    simp [check, he]
  | some f =>
    simp only [check, Schema.resolve_of_field?_eq_some hf, FieldInfo.scalar?]
    cases htype : f.type with
    | relation target => simp [FieldType.scalar?, htype]
    | scalar type =>
      simp only [FieldType.scalar?]
      constructor
      · intro h
        split_ifs at h with h₁ h₂ h₃
        cases h
        have hsuits : r.Suits type f.cardinality :=
          (r.suits_iff type f.cardinality).mpr
            ⟨by simpa using h₁, not_not.mp h₂, by simpa using h₃⟩
        exact ⟨f, type, rfl, htype, hsuits, by rw [htype]⟩
      · rintro ⟨f', type', hf', htype', hsuits, rfl⟩
        cases hf'
        cases htype.symm.trans htype'
        obtain ⟨h₁, h₂, h₃⟩ := (r.suits_iff type f.cardinality).mp hsuits
        rw [if_neg (by simp [h₁]), if_neg (not_not_intro h₂), if_neg (by simp [h₃]), htype]

/-! ## Applying rules -/

/-- A rule applies to a model: it names a scalar field of the model and suits it, and its
    restriction admits the value that it reads. -/
def ParameterRule.Applies (s : Schema) (input : α) (model : String) (r : ParameterRule α) : Prop :=
  ∃ f type, s.field? model r.field = some f ∧ f.type = .scalar type ∧ r.Suits type f.cardinality ∧
    r.restriction.Admits type (r.read input)

/-- The leaf of a rule on a model: its field, if the model has it, compared with the value that the
    rule reads. It goes to the group of the rule. -/
def ParameterRule.leaf? (s : Schema) (input : α) (model qualifier : String) (r : ParameterRule α) :
    Option Member :=
  (s.field? model r.field).map fun f =>
    ⟨r.membership, .leaf ⟨model, r.field, f.column, qualifier⟩ r.restriction (r.read input)⟩

theorem FieldInfo.leaf_eq_ok_iff {field : FieldInfo} {type : ScalarType}
    (h : field.type = .scalar type) {qualifier : String} {r : Restriction} {v : Value}
    {p : Predicate} :
    field.leaf qualifier r v = .ok p ↔
      r.Admits type v ∧ p = .leaf ⟨field.model, field.field, field.column, qualifier⟩ r v := by
  have hscalar : field.scalar? = some type := by rw [scalar?, h]; rfl
  simp only [leaf, hscalar]
  rw [← Restriction.unmet?_eq_none_iff]
  cases r.unmet? type v with
  | none => simp [eq_comm]
  | some expected => simp

/-- A leaf of a scalar field is refused only for its value. -/
theorem FieldInfo.typeMismatch_of_leaf {field : FieldInfo} {type : ScalarType}
    (h : field.type = .scalar type) {qualifier : String} {r : Restriction} {v : Value}
    {e : CompileError} (he : field.leaf qualifier r v = .error e) :
    ∃ expected, e = .typeMismatch field.model field.field expected (.value v.kind) := by
  have hscalar : field.scalar? = some type := by rw [scalar?, h]; rfl
  simp only [leaf, hscalar] at he
  cases hu : r.unmet? type v with
  | none =>
    rw [hu] at he
    cases he
  | some expected =>
    rw [hu] at he
    cases he
    exact ⟨expected, rfl⟩

/-- A rule offers a member exactly if it applies, and then the member is its leaf. -/
theorem ParameterRule.offer_eq_ok_iff {s : Schema} {model qualifier : String} {input : α}
    {r : ParameterRule α} {m : Member} :
    r.offer s model qualifier input = .ok m ↔
      r.Applies s input model ∧ r.leaf? s input model qualifier = some m := by
  constructor
  · intro h
    rw [offer] at h
    cases hc : r.check s model with
    | error e => rw [hc] at h; cases h
    | ok field =>
      obtain ⟨f, type, hf, htype, hsuits, rfl⟩ := check_eq_ok_iff.mp hc
      simp only [hc] at h
      cases hl : FieldInfo.leaf
          ⟨model, r.field, f.column, f.type, f.cardinality, f.modifier.isOptional⟩ qualifier
          r.restriction (r.read input) with
      | error e => simp only [hl, Except.map] at h; cases h
      | ok p =>
        obtain ⟨hadmits, rfl⟩ := (FieldInfo.leaf_eq_ok_iff htype).mp hl
        simp only [hl, Except.map] at h
        cases h
        exact ⟨⟨f, type, hf, htype, hsuits, hadmits⟩, by rw [leaf?, hf]; rfl⟩
  · rintro ⟨⟨f, type, hf, htype, hsuits, hadmits⟩, hleaf⟩
    rw [leaf?, hf, Option.map_some, Option.some.injEq] at hleaf
    have hc := check_eq_ok_iff.mpr ⟨f, type, hf, htype, hsuits, rfl⟩
    rw [offer, hc]
    simp only
    rw [(FieldInfo.leaf_eq_ok_iff htype).mpr ⟨hadmits, rfl⟩]
    exact congrArg Except.ok hleaf

end SchemaFilter
