import SchemaFilter.Proofs.Compile.Grouping

/-!
# Sequences of pushes

The groups of a compilation take one push after the other, and go on after a push that they refuse.
Whatever is pushed, a push is refused exactly if its group was opened with the other operator, and
what is refused leaves no trace: the groups are those of the pushes that were taken.

Main definitions and results:

* `Grouping.pushAll`, `Grouping.taken`: the groups after some pushes, and the pushes that they took;
* `Grouping.fst_push_eq_error_iff`: which push is refused, and how;
* `Grouping.taken_empty`: the pushes that are taken, said without a run;
* `groups_after_pushes`: the groups and their predicate after any pushes.
-/

namespace SchemaFilter

namespace Grouping

/-- Pushes one after the other, the failing ones included. -/
def pushAll (g : Grouping) (ms : List Member) : Grouping :=
  ms.foldl (fun g m => (g.push m.group m.op m.predicate).2) g

/-- The pushes that do not fail. -/
def taken : Grouping → List Member → List Member
  | _, [] => []
  | g, m :: ms =>
    match g.push m.group m.op m.predicate with
    | (.ok (), g') => m :: taken g' ms
    | (.error _, g') => taken g' ms

variable {g : Grouping} {earlier : List Member}

theorem pushAll_cons (g : Grouping) (m : Member) (ms : List Member) :
    g.pushAll (m :: ms) = (g.push m.group m.op m.predicate).2.pushAll ms := rfl

/-! ## One push -/

/-- Groups that were made by earlier pushes refuse a further one, and are as they were, or take it.
    In both cases they are described by all pushes, this one included. -/
theorem push_cases (h : g.groups.items = groupsOf earlier) (m : Member) :
    (∃ e, m.conflict? (memberships earlier) = some e ∧
        g.push m.group m.op m.predicate = (.error e, g) ∧
        g.groups.items = groupsOf (earlier ++ [m])) ∨
      ∃ g', m.conflict? (memberships earlier) = none ∧
        g.push m.group m.op m.predicate = (.ok (), g') ∧
        g'.groups.items = groupsOf (earlier ++ [m]) := by
  cases hc : m.conflict? (memberships earlier) with
  | some e =>
    obtain ⟨hpush, hgroups⟩ := push_conflict h hc
    exact .inl ⟨e, rfl, hpush, h.trans hgroups.symm⟩
  | none =>
    obtain ⟨g', hpush, hg'⟩ := push_agreeing h hc
    exact .inr ⟨g', rfl, hpush, hg'⟩

theorem fst_push_eq_error_iff (h : g.groups.items = groupsOf earlier) {m : Member}
    {e : CompileError} :
    (g.push m.group m.op m.predicate).1 = .error e ↔
      ∃ first, operator? (memberships earlier) m.group = some first ∧ first ≠ m.op ∧
        e = .configurationConflict m.group first m.op := by
  rw [← Membership.conflict?_eq_some_iff]
  obtain ⟨e', hc, hpush, _⟩ | ⟨g', hc, hpush, _⟩ := push_cases h m
  · rw [hpush, hc, Option.some.injEq, Except.error.injEq]
  · rw [hpush, hc]
    exact iff_of_false nofun nofun

/-! ## All pushes -/

/-- The groups after some pushes are described by all of them, also by those that were refused. -/
theorem items_pushAll (h : g.groups.items = groupsOf earlier) (ms : List Member) :
    (g.pushAll ms).groups.items = groupsOf (earlier ++ ms) := by
  induction ms generalizing g earlier with
  | nil => rw [List.append_nil, ← h, pushAll, List.foldl_nil]
  | cons m ms ih =>
    rw [List.append_cons earlier m ms, pushAll_cons]
    obtain ⟨e, _, hpush, hg⟩ | ⟨g', _, hpush, hg⟩ := push_cases h m
    · rw [hpush]
      exact ih hg
    · rw [hpush]
      exact ih hg

theorem items_pushAll_empty (ms : List Member) :
    (empty.pushAll ms).groups.items = groupsOf ms := by
  have hempty : empty.groups.items = groupsOf [] := rfl
  exact items_pushAll hempty ms

/-- Failing pushes leave no trace. -/
theorem pushAll_taken (g : Grouping) (ms : List Member) :
    g.pushAll (g.taken ms) = g.pushAll ms := by
  induction ms generalizing g with
  | nil => rfl
  | cons m ms ih =>
    rw [taken, pushAll_cons]
    rcases hpush : g.push m.group m.op m.predicate with ⟨e | ⟨⟩, g'⟩
    · have hsame : g' = g := by
        have hkeep := snd_push_of_error (congrArg Prod.fst hpush)
        rwa [hpush] at hkeep
      rw [hsame]
      exact ih g
    · rw [pushAll_cons, hpush]
      exact ih g'

/-- A push is taken if it declares the operator of its group among all pushes. -/
theorem taken_eq_filter (h : g.groups.items = groupsOf earlier) (ms : List Member) :
    g.taken ms =
      ms.filter fun m => operator? (memberships (earlier ++ ms)) m.group == some m.op := by
  induction ms generalizing g earlier with
  | nil => rfl
  | cons m ms ih =>
    -- the operator of its group is the one of an earlier push, or its own
    have hop : operator? (memberships (earlier ++ m :: ms)) m.group =
        (operator? (memberships earlier) m.group).or (some m.op) := by
      rw [memberships_append, operator?_append]
      congr 1
      simp [operator?, memberships]
    rw [taken, List.filter_cons, hop, List.append_cons earlier m ms]
    obtain ⟨e, hc, hpush, hg⟩ | ⟨g', hc, hpush, hg⟩ := push_cases h m
    · obtain ⟨first, hfirst, hne, _⟩ := Membership.conflict?_eq_some_iff.mp hc
      rw [hpush, hfirst, Option.some_or, if_neg (by simpa using hne)]
      exact ih hg
    · have hown : (operator? (memberships earlier) m.group).or (some m.op) = some m.op := by
        cases hfirst : operator? (memberships earlier) m.group with
        | none => rfl
        | some first =>
          by_contra hne
          have hconflict := Membership.conflict?_eq_some_iff.mpr
            ⟨first, hfirst, fun heq => hne (congrArg some heq), rfl⟩
          exact Option.some_ne_none _ (hconflict.symm.trans hc)
      rw [hpush, hown, if_pos (beq_self_eq_true _)]
      exact congrArg (m :: ·) (ih hg)

theorem taken_empty (ms : List Member) :
    empty.taken ms = ms.filter fun m => operator? (memberships ms) m.group == some m.op := by
  have hempty : empty.groups.items = groupsOf [] := rfl
  exact taken_eq_filter hempty ms

theorem consistent_taken (ms : List Member) : Consistent (memberships (empty.taken ms)) := by
  have hop : ∀ m ∈ memberships (empty.taken ms),
      operator? (memberships ms) m.group = some m.op := by
    intro m hm
    obtain ⟨n, hn, rfl⟩ := List.mem_map.mp hm
    rw [taken_empty, List.mem_filter] at hn
    simpa using hn.2
  intro m hm n hn hgroup
  have hsame := hop m hm
  rw [hgroup, hop n hn] at hsame
  exact (Option.some.inj hsame).symm

/-- Pushes that were taken are taken without the others, too. -/
theorem taken_taken (ms : List Member) : empty.taken (empty.taken ms) = empty.taken ms := by
  rw [taken_empty (empty.taken ms), List.filter_eq_self]
  intro m hm
  simpa using (consistent_taken ms).operator?_eq (List.mem_map_of_mem hm)

theorem taken_eq_nil_iff (ms : List Member) : empty.taken ms = [] ↔ ms = [] := by
  constructor
  · intro h
    cases ms with
    | nil => rfl
    | cons m ms =>
      -- nothing comes before the first push that it could conflict with
      have hfirst : m ∈ empty.taken (m :: ms) := by
        rw [taken_empty, List.mem_filter]
        exact ⟨List.mem_cons_self, by simp [operator?, memberships]⟩
      exact absurd hfirst (h ▸ List.not_mem_nil)
  · rintro rfl
    rfl

theorem finish_pushAll (ms : List Member) (entity : String) :
    (empty.pushAll ms).finish entity =
      if ms = [] then .error (.emptyCompilation entity)
      else .ok (foldMembers (empty.taken ms)) := by
  split_ifs with hnil
  · rw [hnil]
    rfl
  · rw [← pushAll_taken]
    exact finish_of_consistent (items_pushAll_empty _) (consistent_taken ms)
      (mt (taken_eq_nil_iff ms).mp hnil) entity

end Grouping

/-! ## Groups after pushes -/

/-- **Groups after any pushes.** A further push fails exactly if its group was pushed before with the
    other operator first, the error names the group and both operators, and the groups are as they
    were. The groups are those of the pushes that did not fail, none of which fails without the
    others. They have no predicate exactly if nothing was pushed; else it is the fold of the pushes
    that did not fail, which is true if and only if every group is, by all its members or by some of
    them. -/
theorem groups_after_pushes (ms : List Member) (entity : String) :
    (∀ (m : Member) (e : CompileError),
      ((Grouping.empty.pushAll ms).push m.group m.op m.predicate).1 = .error e ↔
        ∃ first, operator? (memberships ms) m.group = some first ∧ first ≠ m.op ∧
          e = .configurationConflict m.group first m.op) ∧
      (∀ (m : Member) (e : CompileError),
        ((Grouping.empty.pushAll ms).push m.group m.op m.predicate).1 = .error e →
          ((Grouping.empty.pushAll ms).push m.group m.op m.predicate).2 =
            Grouping.empty.pushAll ms) ∧
      Grouping.empty.pushAll ms = Grouping.empty.pushAll (Grouping.empty.taken ms) ∧
      Grouping.empty.taken (Grouping.empty.taken ms) = Grouping.empty.taken ms ∧
      (Grouping.empty.pushAll ms).size = (groupIds ms).length ∧
      (Grouping.empty.pushAll ms).finish entity =
        (if ms = [] then .error (.emptyCompilation entity)
          else .ok (foldMembers (Grouping.empty.taken ms))) ∧
      ∀ truth, (foldMembers (Grouping.empty.taken ms)).eval truth ↔
        ∀ m ∈ Grouping.empty.taken ms, m.GroupHolds truth (Grouping.empty.taken ms) := by
  refine ⟨?_, fun m e h => Grouping.snd_push_of_error h, (Grouping.pushAll_taken _ ms).symm,
    Grouping.taken_taken ms, ?_, Grouping.finish_pushAll ms entity, ?_⟩
  · intro m e
    exact Grouping.fst_push_eq_error_iff (Grouping.items_pushAll_empty ms)
  · rw [Grouping.size, NameTable.size, Grouping.items_pushAll_empty, groupsOf, List.length_map]
  · intro truth
    exact eval_foldMembers_iff (Grouping.consistent_taken ms) truth

/-- Books of a title. -/
def titled (title : String) : Predicate :=
  .leaf ⟨"Book", "title", "title", "Book"⟩ .equals (.string title)

/-- Pushes into two groups; the second one is refused. -/
def titlePushes : List Member :=
  [⟨⟨"either", .or⟩, titled "Emma"⟩, ⟨⟨"either", .and⟩, titled "Persuasion"⟩,
    ⟨⟨"other", .and⟩, .group .or []⟩, ⟨⟨"either", .or⟩, titled "Sanditon"⟩]

theorem groups_after_titlePushes :
    (Grouping.empty.pushAll titlePushes).push "either" .and (titled "Lady Susan") =
        (.error (.configurationConflict "either" .or .and), Grouping.empty.pushAll titlePushes) ∧
      (Grouping.empty.pushAll titlePushes).size = 2 ∧
      (Grouping.empty.pushAll titlePushes).finish "Book" =
        .ok (.group .and [.group .or [titled "Emma", titled "Sanditon"], .group .or []]) := by
  obtain ⟨hfails, hkept, -, -, hsize, hfinish, -⟩ := groups_after_pushes titlePushes "Book"
  have hconflict := (hfails ⟨⟨"either", .and⟩, titled "Lady Susan"⟩
    (.configurationConflict "either" .or .and)).mpr ⟨.or, rfl, by decide, rfl⟩
  exact ⟨Prod.ext hconflict (hkept _ _ hconflict), hsize.trans rfl, hfinish.trans rfl⟩

end SchemaFilter
