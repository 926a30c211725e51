import SchemaFilter.Compile.Run
import SchemaFilter.Proofs.Compile.Grouping

/-!
# Runs over the steps of a filter

What a step offers to the groups does not depend on them: a member, or an error. The run of all
steps is described by these offers alone. In the mode that goes on after failures its errors are
those of the offers and of the members whose groups have the other operator (`errorsAfter`), and its
groups are those of all members; the mode that stops has the first of these errors.

Results:

* `Step.runFrom_run`: a step from its offer, in both outcomes;
* `runSteps_aggregate`: errors and groups of a run that goes on;
* `runSteps_failFast_errors`, `runSteps_failFast_eq`: a run that stops has the first error of the
  one that goes on, and is the same run if there is none;
* `Compiler.result_compile_of_errors`, `Compiler.result_compile_of_members`: the result of a
  compilation, in both modes, from the offers.
-/

namespace SchemaFilter

variable {α : Type}

/-! ## Actions -/

section

variable {β γ : Type} (p : Progress)

theorem Action.runFrom_bind (x : Action β) (f : β → Action γ) :
    (x >>= f).runFrom p =
      match x.runFrom p with
      | (.ok b, q) => (f b).runFrom q
      | (.error e, q) => (.error e, q) := by
  simp only [runFrom, ExceptT.run_bind, StateT.run_bind, Id.run_bind]
  generalize (x.run.run p).run = out
  obtain ⟨_ | _, _⟩ := out <;> rfl

theorem Action.runFrom_lift (r : Except CompileError β) : runFrom (liftM r) p = (r, p) := rfl

theorem ParameterRule.runFrom_value (r : ParameterRule α) (place : Place) (input : α) :
    (r.value place input).runFrom p =
      (.ok (r.read input), { p with reads := p.reads ++ [place] }) := rfl

theorem runFrom_pushLeaf (id : String) (op : Combine) (leaf : Predicate) :
    (pushLeaf id op leaf).runFrom p =
      ((p.groups.push id op leaf).1, { p with groups := (p.groups.push id op leaf).2 }) := rfl

end

/-! ## Offers -/

def ParameterRule.membership (r : ParameterRule α) : Membership := ⟨r.group, r.combine⟩

/-- The member that a parameter rule makes on a model, or what is wrong with the rule or its
    value. -/
def ParameterRule.offer (s : Schema) (model qualifier : String) (input : α) (r : ParameterRule α) :
    Except CompileError Member :=
  match r.check s model with
  | .error e => .error e
  | .ok field => (field.leaf qualifier r.restriction (r.read input)).map (⟨r.membership, ·⟩)

/-- What a step offers to the groups. -/
def Step.offer (s : Schema) (input : α) : Step α → Except CompileError Member
  | .fail e => .error e
  | .apply _ model qualifier rule => rule.offer s model qualifier input

/-- What the steps of a filter offer. -/
def Filter.offers (f : Filter α) (s : Schema) (root : Root) (input : α) :
    List (Except CompileError Member) :=
  (f.plan s root).2.map (·.offer s input)

/-- What groups make of an offer: they push a member, and an error is passed on. -/
def Grouping.take (g : Grouping) : Except CompileError Member → Except CompileError Unit × Grouping
  | .error e => (.error e, g)
  | .ok m => g.push m.group m.op m.predicate

/-- The places that a step reads: that of its rule, if the rule passes its check. -/
def Step.reads (s : Schema) : Step α → List Place
  | .fail _ => []
  | .apply place model _ rule => if (rule.check s model).isOk then [place] else []

/-- A step reads its place, if it reads one, and the groups make of its offer what they do. -/
theorem Step.runFrom_run (s : Schema) (input : α) (p : Progress) (step : Step α) :
    (step.run s input).runFrom p =
      ((p.groups.take (step.offer s input)).1,
        ⟨p.reads ++ step.reads s, (p.groups.take (step.offer s input)).2⟩) := by
  cases step with
  | fail e =>
    rw [reads, List.append_nil]
    rfl
  | apply place model qualifier rule =>
    simp only [run, offer, reads, ParameterRule.offer, Action.runFrom_bind, Action.runFrom_lift,
      rule.runFrom_value, runFrom_pushLeaf]
    cases rule.check s model with
    | error e => simp [Grouping.take, Except.isOk, Except.toBool]
    | ok field =>
      simp only
      cases field.leaf qualifier rule.restriction (rule.read input) <;> rfl

theorem eq_ok_of_toOption {ε β : Type} {x : Except ε β} {b : β} (h : x.toOption = some b) :
    x = .ok b := by
  cases x <;> cases h
  rfl

/-- The members among offers. -/
def acceptedOffers (os : List (Except CompileError Member)) : List Member :=
  os.filterMap Except.toOption

theorem acceptedOffers_cons_error (e : CompileError) (os : List (Except CompileError Member)) :
    acceptedOffers (.error e :: os) = acceptedOffers os := rfl

theorem acceptedOffers_cons_ok (m : Member) (os : List (Except CompileError Member)) :
    acceptedOffers (.ok m :: os) = m :: acceptedOffers os := rfl

theorem acceptedOffers_map_ok (ms : List Member) : acceptedOffers (ms.map .ok) = ms := by
  induction ms with
  | nil => rfl
  | cons m ms ih => rw [List.map_cons, acceptedOffers_cons_ok, ih]

/-! ## Errors of a sequence of verdicts -/

/-- The verdict of an offer: its error, or the group and operator of the offered member. -/
def verdict (offer : Except CompileError Member) : Except CompileError Membership :=
  offer.map Member.toMembership

/-- The errors of verdicts, in order, after earlier memberships: a verdict that is an error, or the
    conflict of a membership with those before it. -/
def errorsAfter : (earlier : List Membership) → List (Except CompileError Membership) →
    List CompileError
  | _, [] => []
  | earlier, .error e :: vs => e :: errorsAfter earlier vs
  | earlier, .ok m :: vs => (m.conflict? earlier).toList ++ errorsAfter (earlier ++ [m]) vs

/-- There is no error exactly if no offer is one and all members are consistent. -/
theorem errorsAfter_eq_nil_iff {earlier : List Membership} (h : Consistent earlier)
    (os : List (Except CompileError Member)) :
    errorsAfter earlier (os.map verdict) = [] ↔
      ∃ ms : List Member, os = ms.map .ok ∧ Consistent (earlier ++ memberships ms) := by
  induction os generalizing earlier with
  | nil =>
    refine iff_of_true rfl ⟨[], rfl, ?_⟩
    rwa [memberships, List.map_nil, List.append_nil]
  | cons o os ih =>
    cases o with
    | error e =>
      refine iff_of_false (List.cons_ne_nil e _) ?_
      rintro ⟨_ | ⟨m, ms⟩, hos, _⟩ <;> cases hos
    | ok m =>
      have hcons : ∀ ms, earlier ++ memberships (m :: ms) =
          (earlier ++ [m.toMembership]) ++ memberships ms := by
        intro ms
        rw [List.append_assoc]
        rfl
      rw [List.map_cons, verdict, Except.map, errorsAfter, List.append_eq_nil_iff,
        Option.toList_eq_nil_iff, h.conflict?_eq_none_iff]
      constructor
      · rintro ⟨hm, hos⟩
        obtain ⟨ms, rfl, hms⟩ := (ih hm).mp hos
        exact ⟨m :: ms, rfl, hcons ms ▸ hms⟩
      · rintro ⟨_ | ⟨n, ms⟩, hos, hms⟩
        · cases hos
        · rw [List.map_cons, List.cons.injEq, Except.ok.injEq] at hos
          obtain ⟨rfl, rfl⟩ := hos
          rw [hcons] at hms
          have hm := hms.of_append_left
          exact ⟨hm, (ih hm).mpr ⟨ms, rfl, hms⟩⟩

/-- What holds of conflicts and of the errors among the verdicts holds of all errors. -/
theorem errorsAfter_forall {P : CompileError → Prop}
    (hconflict : ∀ group first second, P (.configurationConflict group first second))
    {vs : List (Except CompileError Membership)} (hvs : ∀ e, .error e ∈ vs → P e) :
    ∀ earlier, ∀ e ∈ errorsAfter earlier vs, P e := by
  induction vs with
  | nil => intro _ e he; exact absurd he List.not_mem_nil
  | cons v vs ih =>
    intro earlier e he
    have ih := ih fun e he => hvs e (List.mem_cons_of_mem v he)
    cases v with
    | error e' =>
      rw [errorsAfter, List.mem_cons] at he
      rcases he with rfl | he
      · exact hvs e List.mem_cons_self
      · exact ih earlier e he
    | ok m =>
      rw [errorsAfter, List.mem_append, Option.mem_toList] at he
      rcases he with he | he
      · obtain ⟨first, _, hif⟩ := Option.bind_eq_some_iff.mp he
        split_ifs at hif
        rw [← Option.some.inj hif]
        exact hconflict m.group first m.op
      · exact ih _ e he

/-! ## Runs -/

section

variable {s : Schema} {input : α} {step : Step α} {steps : List (Step α)} {p q : Progress}

theorem runSteps_cons_ok (h : (step.run s input).runFrom p = (.ok (), q)) (mode : ErrorMode) :
    runSteps mode s input p (step :: steps) = runSteps mode s input q steps := by
  rw [runSteps, h]

theorem runSteps_cons_error {e : CompileError} (h : (step.run s input).runFrom p = (.error e, q))
    (mode : ErrorMode) :
    runSteps mode s input p (step :: steps) =
      match mode with
      | .failFast => ⟨q, [e]⟩
      | .aggregate =>
        let r := runSteps .aggregate s input q steps
        { r with errors := e :: r.errors } := by
  rw [runSteps, h]
  cases mode <;> rfl

/-- A run that goes on after failures, from groups that some members made: its errors are those of
    the offers, and its groups are those of all members. -/
theorem runSteps_aggregate {ms : List Member} (h : p.groups.groups.items = groupsOf ms)
    (steps : List (Step α)) :
    (runSteps .aggregate s input p steps).errors =
        errorsAfter (memberships ms) ((steps.map (·.offer s input)).map verdict) ∧
      (runSteps .aggregate s input p steps).groups.groups.items =
        groupsOf (ms ++ acceptedOffers (steps.map (·.offer s input))) := by
  -- the members of `ms` are all that were pushed, whether their groups took them or not
  induction steps generalizing p ms with
  | nil => exact ⟨rfl, by rw [runSteps, acceptedOffers, List.map_nil, List.filterMap_nil,
      List.append_nil, h]⟩
  | cons step steps ih =>
    have hrun := step.runFrom_run s input p
    rw [List.map_cons, List.map_cons]
    cases ho : step.offer s input with
    | error e =>
      rw [ho, Grouping.take] at hrun
      rw [runSteps_cons_error hrun, verdict, Except.map, errorsAfter,
        acceptedOffers_cons_error]
      have hrest := ih (p := ⟨p.reads ++ step.reads s, p.groups⟩) h
      exact ⟨congrArg (e :: ·) hrest.1, hrest.2⟩
    | ok m =>
      rw [ho, Grouping.take] at hrun
      rw [verdict, Except.map, errorsAfter, acceptedOffers_cons_ok, ← memberships_singleton m,
        ← memberships_append, List.append_cons ms m (acceptedOffers _)]
      cases hc : m.conflict? (memberships ms) with
      | some e =>
        obtain ⟨hpush, hgroups⟩ := Grouping.push_conflict h hc
        rw [hpush] at hrun
        rw [runSteps_cons_error hrun]
        have hms : p.groups.groups.items = groupsOf (ms ++ [m]) := by rw [hgroups, h]
        have hrest := ih (p := ⟨p.reads ++ step.reads s, p.groups⟩) hms
        exact ⟨congrArg (e :: ·) hrest.1, hrest.2⟩
      | none =>
        obtain ⟨g', hpush, hgroups⟩ := Grouping.push_agreeing h hc
        rw [hpush] at hrun
        rw [runSteps_cons_ok hrun]
        exact ih (p := ⟨p.reads ++ step.reads s, g'⟩) hgroups

theorem runSteps_empty (s : Schema) (input : α) (steps : List (Step α)) :
    (runSteps .aggregate s input {} steps).errors =
        errorsAfter [] ((steps.map (·.offer s input)).map verdict) ∧
      (runSteps .aggregate s input {} steps).groups.groups.items =
        groupsOf (acceptedOffers (steps.map (·.offer s input))) :=
  have h : ({} : Progress).groups.groups.items = groupsOf [] := rfl
  runSteps_aggregate h steps

/-- A run that goes on after failures reads what its steps do. -/
theorem reads_runSteps_aggregate (p : Progress) (steps : List (Step α)) :
    (runSteps .aggregate s input p steps).reads = p.reads ++ steps.flatMap (Step.reads s) := by
  induction steps generalizing p with
  | nil => exact (List.append_nil _).symm
  | cons step steps ih =>
    have hrun := step.runFrom_run s input p
    rw [List.flatMap_cons, ← List.append_assoc]
    cases htake : (p.groups.take (step.offer s input)).1 with
    | error e =>
      rw [htake] at hrun
      rw [runSteps_cons_error hrun]
      exact ih _
    | ok _ =>
      rw [htake] at hrun
      rw [runSteps_cons_ok hrun]
      exact ih _

/-- A run that stops reports the first error of the one that goes on. -/
theorem runSteps_failFast_errors (p : Progress) (steps : List (Step α)) :
    (runSteps .failFast s input p steps).errors =
      (runSteps .aggregate s input p steps).errors.take 1 := by
  induction steps generalizing p with
  | nil => rfl
  | cons step steps ih =>
    rcases hrun : (step.run s input).runFrom p with ⟨e | ⟨⟩, q⟩
    · rw [runSteps_cons_error hrun, runSteps_cons_error hrun]
      rfl
    · rw [runSteps_cons_ok hrun, runSteps_cons_ok hrun]
      exact ih q

/-- Without errors both modes make the same run. -/
theorem runSteps_failFast_eq {p : Progress} {steps : List (Step α)}
    (h : (runSteps .aggregate s input p steps).errors = []) :
    runSteps .failFast s input p steps = runSteps .aggregate s input p steps := by
  induction steps generalizing p with
  | nil => rfl
  | cons step steps ih =>
    rcases hrun : (step.run s input).runFrom p with ⟨e | ⟨⟩, q⟩
    · rw [runSteps_cons_error hrun] at h
      exact absurd h (List.cons_ne_nil e _)
    · rw [runSteps_cons_ok hrun] at h ⊢
      rw [runSteps_cons_ok hrun, ih h]

end

/-! ## Compilations -/

/-- The errors of a filter whose declarations and root are in order. -/
def Filter.errors (f : Filter α) (s : Schema) (root : Root) (input : α) : List CompileError :=
  errorsAfter [] ((f.offers s root input).map verdict)

/-- A filter has no errors exactly if every step offers a member and the members are consistent. -/
theorem Filter.errors_eq_nil_iff (f : Filter α) (s : Schema) (root : Root) (input : α) :
    f.errors s root input = [] ↔
      ∃ ms : List Member, f.offers s root input = ms.map .ok ∧ Consistent (memberships ms) :=
  errorsAfter_eq_nil_iff .nil _

/-- The error that a compilation reports for the errors of its rules. -/
def ErrorMode.report : ErrorMode → List CompileError → Option CompileError
  | failFast, es => es.head?
  | aggregate, es => CompileError.collect es

theorem ErrorMode.report_eq_none_iff (mode : ErrorMode) (es : List CompileError) :
    mode.report es = none ↔ es = [] := by
  cases mode <;> rcases es with _ | ⟨e, _ | ⟨e', es⟩⟩ <;>
    simp [report, CompileError.collect]

theorem collect_take_one (es : List CompileError) :
    CompileError.collect (es.take 1) = es.head? := by
  cases es <;> rfl

namespace Compiler

variable (c : Compiler) {f : Filter α} {root : Root} (input : α)

theorem result_compile_of_fault {fault : RuleFault} (hf : f.fault? = some fault) :
    (c.compile f input).result = .error (.malformedRule f.entity fault) := by
  simp only [compile, hf]

theorem result_compile_of_root_error {e : CompileError} (hf : f.fault? = none)
    (hr : c.rootFor f.entity = .error e) : (c.compile f input).result = .error e := by
  simp only [compile, hf, hr]

/-- What a compilation reports of its run over the steps, whatever the mode. -/
theorem collect_errors_runSteps (root : Root) :
    CompileError.collect
        (runSteps c.mode c.schema input {} (f.plan c.schema root).2).errors =
      c.mode.report (f.errors c.schema root input) := by
  have hagg := runSteps_empty c.schema input (f.plan c.schema root).2
  cases c.mode with
  | failFast =>
    rw [runSteps_failFast_errors, collect_take_one, hagg.1]
    rfl
  | aggregate =>
    rw [hagg.1]
    rfl

/-- A compilation with errors in its rules reports them in its mode. -/
theorem result_compile_of_errors {e : CompileError} (hf : f.fault? = none)
    (hr : c.rootFor f.entity = .ok root)
    (he : c.mode.report (f.errors c.schema root input) = some e) :
    (c.compile f input).result = .error e := by
  rw [← collect_errors_runSteps] at he
  simp only [compile, hf, hr, he]

/-- A compilation without errors in its rules folds their members, if there are any. -/
theorem result_compile_of_members {ms : List Member} (hf : f.fault? = none)
    (hr : c.rootFor f.entity = .ok root) (ho : f.offers c.schema root input = ms.map .ok)
    (hms : Consistent (memberships ms)) :
    (c.compile f input).result =
      if ms = [] then .error (.emptyCompilation f.entity)
      else .ok ⟨root, (f.plan c.schema root).1, foldMembers ms⟩ := by
  have hnil := (f.errors_eq_nil_iff c.schema root input).mpr ⟨ms, ho, hms⟩
  have hagg := runSteps_empty c.schema input (f.plan c.schema root).2
  have hrun : runSteps c.mode c.schema input {} (f.plan c.schema root).2 =
      runSteps .aggregate c.schema input {} (f.plan c.schema root).2 := by
    cases c.mode with
    | failFast => exact runSteps_failFast_eq (hagg.1.trans hnil)
    | aggregate => rfl
  have hgroups : (runSteps c.mode c.schema input {}
      (f.plan c.schema root).2).groups.groups.items = groupsOf ms := by
    have ho' : (f.plan c.schema root).2.map (·.offer c.schema input) = ms.map .ok := ho
    rw [hrun, hagg.2, ho', acceptedOffers_map_ok]
  have hrep : CompileError.collect
      (runSteps c.mode c.schema input {} (f.plan c.schema root).2).errors = none := by
    rw [collect_errors_runSteps, ErrorMode.report_eq_none_iff, hnil]
  simp only [compile, hf, hr, hrep]
  split_ifs with hempty
  · rw [Grouping.finish_eq hgroups, if_pos hempty]
    rfl
  · rw [Grouping.finish_of_consistent hgroups hms hempty]
    rfl

/-- A compilation succeeds exactly if declarations and root are in order, every step offers a
    member, the members are consistent, and there are some. -/
theorem result_compile_eq_ok_iff {criteria : Criteria} :
    (c.compile f input).result = .ok criteria ↔
      f.fault? = none ∧ c.rootFor f.entity = .ok criteria.root ∧
        ∃ ms : List Member, f.offers c.schema criteria.root input = ms.map .ok ∧
          Consistent (memberships ms) ∧ ms ≠ [] ∧
          criteria.joins = (f.plan c.schema criteria.root).1 ∧
          criteria.predicate = foldMembers ms := by
  constructor
  · intro h
    cases hf : f.fault? with
    | some fault =>
      rw [result_compile_of_fault c input hf] at h
      cases h
    | none =>
      cases hr : c.rootFor f.entity with
      | error e =>
        rw [result_compile_of_root_error c input hf hr] at h
        cases h
      | ok root =>
        cases hrep : c.mode.report (f.errors c.schema root input) with
        | some e =>
          rw [result_compile_of_errors c input hf hr hrep] at h
          cases h
        | none =>
          rw [ErrorMode.report_eq_none_iff, Filter.errors_eq_nil_iff] at hrep
          obtain ⟨ms, ho, hms⟩ := hrep
          rw [result_compile_of_members c input hf hr ho hms] at h
          split_ifs at h with hempty
          cases h
          exact ⟨rfl, rfl, ms, ho, hms, hempty, rfl, rfl⟩
  · rintro ⟨hf, hr, ms, ho, hms, hne, hjoins, hpredicate⟩
    rw [result_compile_of_members c input hf hr ho hms, if_neg hne, ← hjoins, ← hpredicate]

end Compiler

end SchemaFilter
