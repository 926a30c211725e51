import SchemaFilter.Proofs.Predicate.Shape
import SchemaFilter.Proofs.Predicate.Tokens
import SchemaFilter.Proofs.Predicate.TokenText

/-!
# What a condition tells about its predicate

Two predicates without groups of fewer than two members have one condition, with one list of bound
values, exactly if they have the same normal form. So a condition determines its predicate but for
what SQL does not speak of: the model and the own name of a field, whether the single member of a
membership was given as a list, and the field of a membership in nothing. No name, whatever is in
it, can make one condition look like another.

Results:

* `Predicate.normalForm`: a predicate without what its condition does not tell;
* `Predicate.recoverable`: the tokens of a predicate and the values that it binds determine the
  normal form, and where the predicate ends among other tokens and values;
* `toSql_eq_iff_normalForm_eq`: conditions are equal exactly if the normal forms are.
-/

namespace SchemaFilter

open Sql

/-! ## Normal forms -/

/-- A predicate as far as its condition tells. -/
inductive NormalForm where
  /-- Membership in nothing, which is false, or its negation. -/
  | constant (value : Bool)
  | leaf (qualifier column : String) (restriction : Restriction) (value : Value)
  | group (op : Combine) (members : List NormalForm)

/-- The normal form of a leaf: a membership is one in the list of the members of its value, and a
    constant if there are none. -/
def leafForm (qualifier column : String) (r : Restriction) (v : Value) : NormalForm :=
  if r.isMembership then
    if v.members.isEmpty then .constant (r == .notIn)
    else .leaf qualifier column r (.list v.members)
  else .leaf qualifier column r v

namespace Predicate

mutual

/-- The normal form of a predicate. -/
def normalForm : Predicate → NormalForm
  | leaf f r v => leafForm f.qualifier f.column r v
  | group op ps => .group op (normalForms ps)

def normalForms : List Predicate → List NormalForm
  | [] => []
  | p :: ps => p.normalForm :: normalForms ps

end

theorem normalForms_eq_map (ps : List Predicate) : normalForms ps = ps.map normalForm := by
  induction ps with
  | nil => rfl
  | cons p ps ih => rw [normalForms, ih, List.map_cons]

theorem normalForm_group (op : Combine) (ps : List Predicate) :
    (group op ps).normalForm = .group op (ps.map normalForm) := by
  rw [normalForm, normalForms_eq_map]

end Predicate

theorem leafForm_of_members_eq {r : Restriction} {v : Value} (h : r.isMembership = true)
    (hv : v.members = []) (q c : String) : leafForm q c r v = .constant (r == .notIn) := by
  simp [leafForm, h, hv]

theorem leafForm_of_members_ne {r : Restriction} {v : Value} (h : r.isMembership = true)
    (hv : v.members ≠ []) (q c : String) :
    leafForm q c r v = .leaf q c r (.list v.members) := by
  simp [leafForm, h, hv]

/-! ## Leaves -/

namespace Sql

/-- A list of placeholders ends at the closing parenthesis. -/
theorem placeholders_append_inj {n k l : Nat} {a b : List Token}
    (h : placeholders n k ++ .closeParen :: a = placeholders n l ++ .closeParen :: b) :
    k = l ∧ a = b := by
  induction k generalizing n l with
  | zero => rcases l with _ | _ | l <;> simp_all [placeholders]
  | succ k ih =>
    rcases k with _ | k <;> rcases l with _ | _ | l
    any_goals simp_all [placeholders]
    -- both lists go on after the comma
    have hrest : placeholders (n + 1) (k + 1) ++ .closeParen :: a =
        placeholders (n + 1) (l + 1) ++ .closeParen :: b := by simpa [placeholders] using h
    obtain ⟨hkl, hab⟩ := ih hrest
    exact ⟨by omega, hab⟩

/-- A written leaf begins with a column or a constant. -/
theorem Written.ne_openParen_cons {q c : String} {n : Nat} {r : Restriction} {v : Value}
    {ts : List Token} {vs : List Value} (h : Written q c n r v ts vs) (a b : List Token) :
    ts ++ a ≠ .openParen :: b := by
  cases h <;> simp

/-- The tokens of a leaf and the values that it binds determine its normal form, and where the leaf
    ends among other tokens and values. -/
theorem Written.append_inj {q c q' c' : String} {n : Nat} {r r' : Restriction} {v v' : Value}
    {ts ts' a b : List Token} {vs vs' x y : List Value} (h : Written q c n r v ts vs)
    (h' : Written q' c' n r' v' ts' vs') (hts : ts ++ a = ts' ++ b) (hvs : vs ++ x = vs' ++ y) :
    leafForm q c r v = leafForm q' c' r' v' ∧ a = b ∧ x = y := by
  -- the ways of writing a leaf differ in one of their first three tokens
  cases h <;> cases h' <;>
    simp only [List.cons_append, List.nil_append, List.append_assoc, List.cons.injEq,
      Token.column.injEq, Token.compare.injEq, Token.constant.injEq, reduceCtorEq, true_and,
      false_and, and_false] at hts
  case isNull.isNull =>
    obtain ⟨⟨rfl, rfl⟩, rfl⟩ := hts
    exact ⟨rfl, rfl, hvs⟩
  case isNotNull.isNotNull =>
    obtain ⟨⟨rfl, rfl⟩, rfl⟩ := hts
    exact ⟨rfl, rfl, hvs⟩
  case compare.compare =>
    obtain ⟨⟨rfl, rfl⟩, rfl, rfl⟩ := hts
    obtain ⟨rfl, rfl⟩ := List.cons.inj hvs
    exact ⟨rfl, rfl, rfl⟩
  case constant.constant hr hv hr' hv' =>
    obtain ⟨hconstant, rfl⟩ := hts
    rw [leafForm_of_members_eq hr hv, leafForm_of_members_eq hr' hv', hconstant]
    exact ⟨rfl, rfl, hvs⟩
  case membership.membership hr hv hr' hv' =>
    obtain ⟨⟨rfl, rfl⟩, rfl, hrest⟩ := hts
    obtain ⟨hlength, rfl⟩ := placeholders_append_inj hrest
    obtain ⟨hmembers, rfl⟩ := List.append_inj hvs hlength
    rw [leafForm_of_members_ne hr hv, leafForm_of_members_ne hr' hv', hmembers]
    exact ⟨rfl, rfl, rfl⟩

end Sql

/-! ## Recovering normal forms -/

namespace Predicate

/-- The normal form of a predicate is determined by its tokens and the values that it binds, and so
    is where the predicate ends among other tokens and values. -/
def Recoverable (p : Predicate) : Prop :=
  ∀ ⦃q : Predicate⦄, q.Branching → ∀ ⦃n : Nat⦄ ⦃a b : List Token⦄ ⦃x y : List Value⦄,
    (p.sqlTokens n).1 ++ a = (q.sqlTokens n).1 ++ b → p.bound ++ x = q.bound ++ y →
      p.normalForm = q.normalForm ∧ a = b ∧ x = y

/-- Members that come after others are recovered one by one, with their operator. -/
theorem recover_later {op op' : Combine} {ps qs : List Predicate} (hps : ∀ p ∈ ps, p.Recoverable)
    (hqs : ∀ q ∈ qs, q.Branching) {n : Nat} {a b : List Token} {x y : List Value}
    (hts : laterTokens op ps n ++ .closeParen :: a = laterTokens op' qs n ++ .closeParen :: b)
    (hvs : ps.flatMap bound ++ x = qs.flatMap bound ++ y) :
    ps.map normalForm = qs.map normalForm ∧ (ps ≠ [] → op = op') ∧ a = b ∧ x = y := by
  induction ps generalizing qs n with
  | nil =>
    cases qs with
    | nil => exact ⟨rfl, absurd rfl, (List.cons.inj hts).2, hvs⟩
    | cons q qs => simp [laterTokens] at hts
  | cons p ps ih =>
    cases qs with
    | nil => simp [laterTokens] at hts
    | cons q qs =>
      obtain ⟨hp, hps⟩ := List.forall_mem_cons.mp hps
      obtain ⟨hq, hqs⟩ := List.forall_mem_cons.mp hqs
      simp only [laterTokens, List.cons_append, List.cons.injEq, Token.combine.injEq,
        List.append_assoc] at hts
      simp only [List.flatMap_cons, List.append_assoc] at hvs
      obtain ⟨hform, hrest, hvalues⟩ := hp hq hts.2 hvs
      -- the members bind the same values, and so those after them have the same numbers
      have hbound : p.bound = q.bound := List.append_cancel_right (hvalues ▸ hvs)
      rw [hbound] at hrest
      obtain ⟨hforms, _, hab, hxy⟩ := ih hps hqs hrest hvalues
      exact ⟨by rw [List.map_cons, List.map_cons, hform, hforms], fun _ => hts.1, hab, hxy⟩

theorem recoverable_leaf (f : FieldRef) (r : Restriction) (v : Value) :
    (leaf f r v).Recoverable := by
  intro q _ n a b x y hts hvs
  have hp := f.written r v n
  rw [f.sqlTokens_snd] at hp
  cases q with
  | leaf g s w =>
    have hq := g.written s w n
    rw [g.sqlTokens_snd] at hq
    rw [bound_leaf, bound_leaf] at hvs
    exact hp.append_inj hq hts hvs
  | group op qs => exact absurd hts (hp.ne_openParen_cons a _)

theorem recoverable_group {op : Combine} {ps : List Predicate} (htwo : 2 ≤ ps.length)
    (hps : ∀ p ∈ ps, p.Recoverable) : (group op ps).Recoverable := by
  intro q hq n a b x y hts hvs
  cases hq with
  | leaf g s w => exact absurd hts.symm ((g.written s w n).ne_openParen_cons b _)
  | @group op' qs htwo' hqs =>
    obtain _ | ⟨p, ps⟩ := ps
    · simp at htwo
    obtain _ | ⟨q, qs⟩ := qs
    · simp at htwo'
    obtain ⟨hp, hps⟩ := List.forall_mem_cons.mp hps
    obtain ⟨hq, hqs⟩ := List.forall_mem_cons.mp hqs
    simp only [sqlTokens_group_cons, List.cons_append, List.append_assoc, List.cons.injEq,
      true_and, List.nil_append] at hts
    simp only [bound_group, List.flatMap_cons, List.append_assoc] at hvs
    obtain ⟨hform, hrest, hvalues⟩ := hp hq hts hvs
    have hbound : p.bound = q.bound := List.append_cancel_right (hvalues ▸ hvs)
    rw [hbound] at hrest
    obtain ⟨hforms, hop, hab, hxy⟩ := recover_later hps hqs hrest hvalues
    -- a second member shows the operator
    have hne : ps ≠ [] := by
      rintro rfl
      simp at htwo
    rw [normalForm_group, normalForm_group, hop hne, List.map_cons, List.map_cons, hform, hforms]
    exact ⟨rfl, hab, hxy⟩

/-- The tokens and values of a predicate determine its normal form. -/
theorem recoverable {p : Predicate} (h : p.Branching) : p.Recoverable := by
  induction h with
  | leaf f r v => exact recoverable_leaf f r v
  | group two_le members ih => exact recoverable_group two_le ih

end Predicate

/-! ## Equal normal forms -/

theorem leafForm_ne_group (q c : String) (r : Restriction) (v : Value) (op : Combine)
    (ms : List NormalForm) : leafForm q c r v ≠ .group op ms := by
  rw [leafForm]
  split
  · split <;> exact nofun
  · exact nofun

/-- Leaves of one normal form are written in the same way, and bind the same values. -/
theorem Sql.Written.eq_of_leafForm_eq {q c q' c' : String} {n : Nat} {r r' : Restriction}
    {v v' : Value} {ts ts' : List Token} {vs vs' : List Value} (h : Written q c n r v ts vs)
    (h' : Written q' c' n r' v' ts' vs') (hform : leafForm q c r v = leafForm q' c' r' v') :
    ts = ts' ∧ vs = vs' := by
  have hequals : Restriction.equals.isMembership = false ∧ Restriction.equals.isOrdering = false :=
    ⟨rfl, rfl⟩
  have hnotEquals :
      Restriction.notEquals.isMembership = false ∧ Restriction.notEquals.isOrdering = false :=
    ⟨rfl, rfl⟩
  have hnull : Value.null.isNull = true := rfl
  -- leaves that are written in two different ways differ in the restriction or the value, or in that
  -- only one of them is a constant
  cases h <;> cases h' <;> simp_all [leafForm]

namespace Predicate

theorem flatMap_bound_congr {ps qs : List Predicate}
    (h : List.Forall₂ (fun p q => p.bound = q.bound) ps qs) :
    ps.flatMap bound = qs.flatMap bound := by
  induction h with
  | nil => rfl
  | cons head tail ih => rw [List.flatMap_cons, List.flatMap_cons, head, ih]

/-- Predicates of one normal form are written with the same tokens, and bind the same values. -/
theorem sameTokens_of_normalForm_eq {p q : Predicate} (h : p.normalForm = q.normalForm) :
    SameTokens p q ∧ p.bound = q.bound := by
  induction p using induct generalizing q with
  | leaf f r v =>
    cases q with
    | leaf g s w =>
      have heq := fun n => (f.written r v n).eq_of_leafForm_eq (g.written s w n) h
      have hbound : (leaf f r v).bound = (leaf g s w).bound := by
        rw [bound_leaf, bound_leaf, ← f.sqlTokens_snd r v 0, (heq 0).2, g.sqlTokens_snd]
      exact ⟨⟨fun n => (heq n).1, congrArg List.length hbound⟩, hbound⟩
    | group op qs =>
      rw [normalForm_group] at h
      exact absurd h (leafForm_ne_group _ _ _ _ _ _)
  | group op ps ih =>
    cases q with
    | leaf g s w =>
      rw [normalForm_group] at h
      exact absurd h.symm (leafForm_ne_group _ _ _ _ _ _)
    | group op' qs =>
      rw [normalForm_group, normalForm_group, NormalForm.group.injEq] at h
      obtain ⟨rfl, hforms⟩ := h
      have hpairs : List.Forall₂ (fun p q => p.normalForm = q.normalForm) ps qs := by
        have hrefl : List.Forall₂ (· = ·) (ps.map normalForm) (qs.map normalForm) :=
          hforms ▸ List.forall₂_refl _
        exact List.forall₂_map_left_iff.mp (List.forall₂_map_right_iff.mp hrefl)
      have hmembers := ((List.forall₂_and_left ps qs).mpr ⟨ih, hpairs⟩).imp fun p q hp => hp.1 hp.2
      refine ⟨.group (hmembers.imp fun p q hp => hp.1) op, ?_⟩
      rw [bound_group, bound_group]
      exact flatMap_bound_congr (hmembers.imp fun p q hp => hp.2)

end Predicate

/-! ## Columns among tokens -/

namespace Sql

theorem isChain_cons_of_not_column {t : Token} {ts : List Token} (ht : t.isColumn = false)
    (hts : ts.IsChain Parted) : (t :: ts).IsChain Parted :=
  hts.cons fun _ _ hcolumn => absurd (ht.symm.trans hcolumn) Bool.false_ne_true

/-- Chains may be put together with a token between them that is no column. -/
theorem isChain_append_cons {t : Token} {ts us : List Token} (ht : t.isColumn = false)
    (hts : ts.IsChain Parted) (hus : us.IsChain Parted) : (ts ++ t :: us).IsChain Parted := by
  refine hts.append (isChain_cons_of_not_column ht hus) ?_
  rintro u _ v ⟨⟩
  exact fun _ => ht

theorem isChain_placeholders (n k : Nat) : (placeholders n k).IsChain Parted := by
  fun_induction placeholders n k with
  | case1 n => exact .nil
  | case2 n => exact .singleton _
  | case3 n k hk ih => exact isChain_cons_of_not_column rfl (isChain_cons_of_not_column rfl ih)

theorem Written.isChain {q c : String} {n : Nat} {r : Restriction} {v : Value} {ts : List Token}
    {vs : List Value} (h : Written q c n r v ts vs) : ts.IsChain Parted := by
  cases h with
  | isNull | isNotNull | compare | constant => simp [Parted, Token.isColumn]
  | membership =>
    have hlist : (placeholders n v.members.length ++ [Token.closeParen]).IsChain Parted :=
      isChain_append_cons rfl (isChain_placeholders _ _) .nil
    have hopen : (Token.openParen :: (placeholders n v.members.length ++ [.closeParen])).IsChain
        Parted := isChain_cons_of_not_column rfl hlist
    exact .cons_cons (fun _ => rfl) (isChain_cons_of_not_column rfl hopen)

end Sql

namespace Predicate

theorem isChain_append_later {ps : List Predicate}
    (hps : ∀ p ∈ ps, ∀ n, (p.sqlTokens n).1.IsChain Parted) {ts : List Token}
    (hts : ts.IsChain Parted) (op : Combine) (n : Nat) :
    (ts ++ (laterTokens op ps n ++ [Token.closeParen])).IsChain Parted := by
  induction ps generalizing ts n with
  | nil => exact isChain_append_cons rfl hts .nil
  | cons p ps ih =>
    obtain ⟨hp, hps⟩ := List.forall_mem_cons.mp hps
    have hlater := ih hps (hp n) (n + p.bound.length)
    rw [laterTokens, List.cons_append, List.append_assoc]
    exact isChain_append_cons rfl hts hlater

/-- In a condition no column follows upon a column. -/
theorem isChain_sqlTokens (p : Predicate) (n : Nat) : (p.sqlTokens n).1.IsChain Parted := by
  induction p using induct generalizing n with
  | leaf f r v => exact (f.written r v n).isChain
  | group op ps ih =>
    cases ps with
    | nil => exact isChain_cons_of_not_column rfl (.singleton _)
    | cons p ps =>
      obtain ⟨hp, hps⟩ := List.forall_mem_cons.mp ih
      rw [sqlTokens_group_cons]
      exact isChain_cons_of_not_column rfl (isChain_append_later hps (hp n) op _)

end Predicate

/-! ## Conditions -/

/-- **Conditions are unambiguous.** Predicates without groups of fewer than two members have one
    condition, with one list of bound values, exactly if they have one normal form. -/
theorem toSql_eq_iff_normalForm_eq {p q : Predicate} (hp : p.Branching) (hq : q.Branching)
    (offset : Nat) : p.toSql offset = q.toSql offset ↔ p.normalForm = q.normalForm := by
  rw [p.toSql_eq, q.toSql_eq, Prod.mk.injEq]
  constructor
  · rintro ⟨htext, hbound⟩
    have htokens := render_injective (p.isChain_sqlTokens _) (q.isChain_sqlTokens _) htext
    have hrecover := Predicate.recoverable hp hq (congrArg (· ++ []) htokens)
      (congrArg (· ++ []) hbound)
    exact hrecover.1
  · intro h
    obtain ⟨hsame, hbound⟩ := Predicate.sameTokens_of_normalForm_eq h
    exact ⟨congrArg render (hsame.tokens _), hbound⟩

/-- A name that is one of some, or a state that is not one of none. -/
def nameCondition (name : FieldRef) (names : Value) (state : FieldRef) : Predicate :=
  .group .or [.leaf name .isIn names, .leaf state .notIn (.list [])]

theorem branching_nameCondition (name : FieldRef) (names : Value) (state : FieldRef) :
    (nameCondition name names state).Branching :=
  .group (Nat.le_refl 2)
    (List.forall_mem_cons.mpr ⟨.leaf .., List.forall_mem_singleton.mpr (.leaf ..)⟩)

theorem normalForm_nameCondition_eq :
    let p := nameCondition ⟨"Book", "title", "t\" IS NULL OR (\"id", "books"⟩ (.string "Emma")
      ⟨"Book", "lent", "lent", "books"⟩
    let q := nameCondition ⟨"Work", "name", "t\" IS NULL OR (\"id", "books"⟩
      (.list [.string "Emma"]) ⟨"Work", "kept", "kept\"", "r1__shelf"⟩
    p.Branching ∧ q.Branching ∧ p.toSql 2 = q.toSql 2 ∧ p.normalForm = q.normalForm := by
  intro p q
  have hp : p.Branching := branching_nameCondition _ _ _
  have hq : q.Branching := branching_nameCondition _ _ _
  have hsql : p.toSql 2 = q.toSql 2 := rfl
  exact ⟨hp, hq, hsql, (toSql_eq_iff_normalForm_eq hp hq 2).mp hsql⟩

end SchemaFilter
