import SchemaFilter.Proofs.Compile.Plan

/-!
# Where errors come from

The errors of a filter's rules are those of single checks, each made on the root model or on a model
that a hop leads to, and conflicts of groups. A property that every failing check gives its error
(`Reports`) is therefore one of all errors of a filter, and with the errors of declarations and
roots one of all that a compilation reports.

Results:

* `Reports.of_mem_errors`: a property of all errors of a filter's rules;
* `Filter.elementary_of_mem_errors`: no error of a filter's rules gathers other errors;
* `Compiler.forall_of_result_error`: a property of the error that a compilation reports, and of the
  errors which that one gathers.
-/

namespace SchemaFilter

variable {α : Type}

/-- Checks on models of some kind, which hops do not leave, fail with errors of some kind. -/
structure Reports (s : Schema) (input : α) (Kind : String → Prop) (P : CompileError → Prop) :
    Prop where
  of_target : ∀ {model target : String} {hop : RelationHop α}, Kind model →
    hop.target? s model = some target → Kind target
  of_hop : ∀ {model : String} {hop : RelationHop α} {e : CompileError}, Kind model →
    hop.check s model = .error e → P e
  of_offer : ∀ {model qualifier : String} {r : ParameterRule α} {e : CompileError}, Kind model →
    r.offer s model qualifier input = .error e → P e
  of_conflict : ∀ group first second, P (.configurationConflict group first second)

namespace Reports

variable {s : Schema} {input : α} {Kind : String → Prop} {P : CompileError → Prop}
  {model : String} {e : CompileError}

theorem of_walk (h : Reports s input Kind P) {rule : Nat} {walked : List String}
    {hops : List (RelationHop α)} (hmodel : Kind model)
    (he : walk s rule model walked hops = .error e) : P e := by
  induction hops generalizing model walked with
  | nil => cases he
  | cons hop hops ih =>
    rw [walk] at he
    cases ht : hop.target? s model with
    | none =>
      obtain ⟨e', hcheck⟩ := RelationHop.check_of_target?_eq_none ht
      simp only [hcheck] at he
      cases he
      exact h.of_hop hmodel hcheck
    | some target =>
      obtain ⟨field, hcheck, htarget, _⟩ := RelationHop.check_of_target?_eq_some ht
      cases hw : walk s rule target (walked ++ [field.field]) hops with
      | error e' =>
        simp only [hcheck, htarget, hw, Except.map] at he
        cases he
        exact ih (h.of_target hmodel ht) hw
      | ok joins =>
        simp only [hcheck, htarget, hw, Except.map] at he
        cases he

theorem of_mem_hopOffers (h : Reports s input Kind P) {hops : List (RelationHop α)}
    {targets walked : List String} {rule : Nat} (hmodel : Kind model)
    (hw : Walks s model hops targets)
    (he : .error e ∈ hopOffers s input hops (chainJoins rule walked hops targets)) : P e := by
  induction hw generalizing walked with
  | nil model => exact absurd he List.not_mem_nil
  | cons head tail ih =>
    have htarget := h.of_target hmodel head
    rw [chainJoins, hopOffers, List.mem_append] at he
    rcases he with he | he
    · obtain ⟨r, _, hr⟩ := List.mem_map.mp he
      exact h.of_offer htarget hr
    · exact ih htarget he

variable {root : Root}

theorem of_mem_relation_offers (h : Reports s input Kind P) {index : Nat} {r : RelationRule α}
    (hroot : Kind root.model) (he : .error e ∈ r.offers s input root index) : P e := by
  rw [RelationRule.offers] at he
  rcases walk_cases s root.model r.hops with ⟨targets, hw, hok⟩ | ⟨e', _, herr⟩
  · simp only [RelationRule.joins, hok] at he
    exact h.of_mem_hopOffers hroot hw he
  · simp only [RelationRule.joins, herr, List.mem_singleton, Except.error.injEq] at he
    subst he
    exact h.of_walk hroot (herr (index + 1) [])

theorem of_mem_offers (h : Reports s input Kind P) {f : Filter α} (hroot : Kind root.model)
    (he : .error e ∈ f.offers s root input) : P e := by
  rw [Filter.offers_eq, List.mem_append, List.mem_flatMap] at he
  rcases he with he | ⟨p, _, hp⟩
  · obtain ⟨r, _, hr⟩ := List.mem_map.mp he
    exact h.of_offer hroot hr
  · exact h.of_mem_relation_offers hroot hp

/-- What checks on the models of a kind report is all that a filter reports whose root is one of
    them. -/
theorem of_mem_errors (h : Reports s input Kind P) {f : Filter α} (hroot : Kind root.model)
    (he : e ∈ f.errors s root input) : P e := by
  refine errorsAfter_forall h.of_conflict ?_ [] e he
  intro e' he'
  obtain ⟨offer, ho, hv⟩ := List.mem_map.mp he'
  cases offer with
  | error e'' =>
    simp only [verdict, Except.map, Except.error.injEq] at hv
    subst hv
    exact h.of_mem_offers hroot ho
  | ok m => cases hv

end Reports

/-! ## Elementary errors -/

/-- An error that gathers no other errors. -/
def CompileError.Elementary : CompileError → Prop
  | aggregate .. => False
  | _ => True

theorem CompileError.Elementary.inner_eq_nil {e : CompileError} (h : e.Elementary) :
    e.inner = [] := by
  cases e with
  | aggregate => exact h.elim
  | _ => rfl

section

variable {s : Schema} {model : String} {e : CompileError}

theorem ParameterRule.elementary_of_check {r : ParameterRule α} (h : r.check s model = .error e) :
    e.Elementary := by
  simp only [check] at h
  split at h
  · cases h; trivial
  · split at h
    · cases h; trivial
    · split_ifs at h <;> cases h <;> trivial

theorem FieldInfo.elementary_of_leaf {field : FieldInfo} {qualifier : String} {r : Restriction}
    {v : Value} (h : field.leaf qualifier r v = .error e) : e.Elementary := by
  simp only [leaf] at h
  split at h
  · cases h; trivial
  · split at h <;> cases h
    trivial

theorem RelationHop.elementary_of_check {hop : RelationHop α} (h : hop.check s model = .error e) :
    e.Elementary := by
  simp only [check] at h
  split at h
  · cases h; trivial
  · split_ifs at h <;> cases h <;> trivial

/-- What a rule offers in vain is refused by its check or by its leaf. -/
theorem ParameterRule.cases_of_offer_eq_error {r : ParameterRule α} {qualifier : String} {input : α}
    (h : r.offer s model qualifier input = .error e) :
    r.check s model = .error e ∨
      ∃ field, r.check s model = .ok field ∧
        field.leaf qualifier r.restriction (r.read input) = .error e := by
  rw [offer] at h
  cases hc : r.check s model with
  | error e' =>
    rw [hc] at h
    cases h
    exact .inl rfl
  | ok field =>
    rw [hc] at h
    cases hl : field.leaf qualifier r.restriction (r.read input) with
    | error e' =>
      simp only [hl, Except.map] at h
      cases h
      exact .inr ⟨field, rfl, hl⟩
    | ok p =>
      simp only [hl, Except.map] at h
      cases h

/-- Every check fails with an elementary error. -/
theorem reports_elementary (s : Schema) (input : α) :
    Reports s input (fun _ => True) CompileError.Elementary where
  of_target _ _ := trivial
  of_hop _ h := RelationHop.elementary_of_check h
  of_offer _ h := by
    rcases ParameterRule.cases_of_offer_eq_error h with hc | ⟨field, _, hl⟩
    · exact ParameterRule.elementary_of_check hc
    · exact FieldInfo.elementary_of_leaf hl
  of_conflict _ _ _ := trivial

theorem Filter.elementary_of_mem_errors {f : Filter α} {root : Root} {input : α}
    (h : e ∈ f.errors s root input) : e.Elementary :=
  (reports_elementary s input).of_mem_errors trivial h

end

/-! ## Compilations -/

/-- What is reported of several errors is one of them, or gathers them. -/
theorem ErrorMode.mem_of_report {mode : ErrorMode} {es : List CompileError} {e : CompileError}
    (h : mode.report es = some e) : e ∈ es ∨ e = .aggregate es.length es := by
  obtain _ | ⟨e', _ | ⟨e'', es⟩⟩ := es <;> cases mode <;> cases h <;> simp

namespace Compiler

variable {c : Compiler} {e : CompileError}

/-- A root is refused for the entity. -/
theorem exists_fault_of_rootFor {entity : String} (h : c.rootFor entity = .error e) :
    ∃ fault, e = .invalidTarget entity fault := by
  simp only [rootFor, deriveRoot] at h
  split at h
  · next hd =>
    split at hd
    · cases hd
    · cases hd
      cases h
      exact ⟨_, rfl⟩
  · split at h
    · cases h
    · split_ifs at h
      cases h
      exact ⟨_, rfl⟩

/-- A property of the errors about entities and declarations, and of those of the rules, is one of
    the error that a compilation reports and of the errors which that one gathers. -/
theorem forall_of_result_error {P : CompileError → Prop} {f : Filter α} {input : α}
    (hmalformed : ∀ fault, P (.malformedRule f.entity fault))
    (htarget : ∀ fault, P (.invalidTarget f.entity fault))
    (hempty : P (.emptyCompilation f.entity)) (haggregate : ∀ count es, P (.aggregate count es))
    (herrors : ∀ root, c.rootFor f.entity = .ok root → ∀ e ∈ f.errors c.schema root input, P e)
    (h : (c.compile f input).result = .error e) : ∀ e' ∈ e :: e.inner, P e' := by
  have hsingle : ∀ {e : CompileError}, P e → e.inner = [] → ∀ e' ∈ e :: e.inner, P e' := by
    intro e he hinner
    rw [hinner]
    exact List.forall_mem_singleton.mpr he
  cases hf : f.fault? with
  | some fault =>
    rw [result_compile_of_fault c input hf] at h
    cases h
    exact hsingle (hmalformed fault) rfl
  | none =>
    cases hr : c.rootFor f.entity with
    | error e' =>
      rw [result_compile_of_root_error c input hf hr] at h
      cases h
      obtain ⟨fault, rfl⟩ := exists_fault_of_rootFor hr
      exact hsingle (htarget fault) rfl
    | ok root =>
      have hes := herrors root hr
      cases hrep : c.mode.report (f.errors c.schema root input) with
      | none =>
        rw [ErrorMode.report_eq_none_iff, Filter.errors_eq_nil_iff] at hrep
        obtain ⟨ms, ho, hms⟩ := hrep
        rw [result_compile_of_members c input hf hr ho hms] at h
        split_ifs at h
        cases h
        exact hsingle hempty rfl
      | some reported =>
        rw [result_compile_of_errors c input hf hr hrep] at h
        cases h
        rcases ErrorMode.mem_of_report hrep with hmem | rfl
        · have he := Filter.elementary_of_mem_errors hmem
          exact hsingle (hes _ hmem) he.inner_eq_nil
        · exact List.forall_mem_cons.mpr ⟨haggregate _ _, hes⟩

end Compiler

end SchemaFilter
