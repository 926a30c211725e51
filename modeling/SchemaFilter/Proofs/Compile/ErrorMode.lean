import SchemaFilter.Proofs.Compile.Errors

/-!
# Error modes

A compilation that stops at the first failure and one that goes on tell the same story: they succeed
together, with the same outcome, and otherwise the first reports the first error of the second.

Results:

* `errorModes_agree`: agreement of the two modes.
-/

namespace SchemaFilter

variable {α : Type}

/-! ## Agreement -/

/-- The result of a compilation that stops at the first failure agrees with the result of one that
    goes on: the outcomes are the same, or the former error is the latter, or the first of the
    errors that the latter gathers. -/
def ModesAgree : Except CompileError Criteria → Except CompileError Criteria → Prop
  | .ok criteria, .ok criteria' => criteria = criteria'
  | .error e, .error (.aggregate _ es) => es.head? = some e
  | .error e, .error e' => e = e'
  | _, _ => False

theorem ModesAgree.of_elementary {e : CompileError} (h : e.Elementary) :
    ModesAgree (.error e) (.error e) := by
  cases e with
  | aggregate => exact h.elim
  | _ => rfl

/-- The first of several errors agrees with what all of them are reported as. -/
theorem ModesAgree.of_collect {e : CompileError} {es : List CompileError} (h : e.Elementary)
    {reported : CompileError} (hr : CompileError.collect (e :: es) = some reported) :
    ModesAgree (.error e) (.error reported) := by
  cases es with
  | nil =>
    cases hr
    exact .of_elementary h
  | cons e' es =>
    cases hr
    rfl

/-- **The two modes agree.** A filter compiles in both, with the same root, joins and predicate, or
    in neither; then the mode that stops reports what the mode that goes on reports, or the first of
    the errors that it gathers. -/
theorem errorModes_agree (s : Schema) (root? : Option Root) (f : Filter α) (input : α) :
    ModesAgree (Compiler.compile ⟨s, .failFast, root?⟩ f input).result
      (Compiler.compile ⟨s, .aggregate, root?⟩ f input).result := by
  cases hf : f.fault? with
  | some fault =>
    rw [Compiler.result_compile_of_fault _ input hf, Compiler.result_compile_of_fault _ input hf]
    exact .of_elementary trivial
  | none =>
    have hroot : Compiler.rootFor ⟨s, .aggregate, root?⟩ f.entity =
        Compiler.rootFor ⟨s, .failFast, root?⟩ f.entity := rfl
    cases hr : Compiler.rootFor ⟨s, .failFast, root?⟩ f.entity with
    | error e =>
      rw [Compiler.result_compile_of_root_error _ input hf hr,
        Compiler.result_compile_of_root_error _ input hf (hroot.trans hr)]
      obtain ⟨fault, rfl⟩ := Compiler.exists_fault_of_rootFor hr
      exact .of_elementary trivial
    | ok root =>
      cases hes : f.errors s root input with
      | nil =>
        obtain ⟨ms, ho, hms⟩ := (f.errors_eq_nil_iff s root input).mp hes
        rw [Compiler.result_compile_of_members _ input hf hr ho hms,
          Compiler.result_compile_of_members _ input hf (hroot.trans hr) ho hms]
        split_ifs
        · exact .of_elementary trivial
        · rfl
      | cons e es =>
        have he : e.Elementary := Filter.elementary_of_mem_errors (hes ▸ List.mem_cons_self)
        obtain ⟨reported, hrep⟩ : ∃ reported, CompileError.collect (e :: es) = some reported := by
          cases es <;> exact ⟨_, rfl⟩
        have hstop : ErrorMode.failFast.report (f.errors s root input) = some e := by
          rw [hes]
          rfl
        have hgo : ErrorMode.aggregate.report (f.errors s root input) = some reported := by
          rw [hes]
          exact hrep
        rw [Compiler.result_compile_of_errors ⟨s, .failFast, root?⟩ input hf hr hstop,
          Compiler.result_compile_of_errors ⟨s, .aggregate, root?⟩ input hf (hroot.trans hr) hgo]
        exact .of_collect he hrep

end SchemaFilter
