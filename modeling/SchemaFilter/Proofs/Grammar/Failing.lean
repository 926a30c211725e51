import SchemaFilter.Grammar.Failure
import SchemaFilter.Proofs.Grammar.Matching

/-!
# Where parts are tried in vain

`Expr.failure` is a number; here the cursors that it is about are a relation, by which the tokens
before them can be described. Every alternative that was given up counts, in every round of a
repetition.

Main definitions and results:

* `Expr.Tried`: a named part is tried in vain at a cursor while an expression is matched;
* `Expr.reached_failure`: the failure of an expression is the offset of such a cursor.
-/

namespace SchemaFilter.Grammar

variable {σ : Type}

/-- While the expression is matched at the cursor `c`, a named part is tried in vain at `p`. -/
def Expr.Tried : Expr σ → (skip : Cursor → Cursor) → (c p : Cursor) → Prop
  | word _, _, _, _ | char _, _, _, _ | atEnd, _, _, _ | notAhead _, _, _, _ => False
  | seq first second, skip, c, p =>
    first.Tried skip c p ∨
      ∃ d ns, first.match? skip c = some (d, ns) ∧ second.Tried skip (skip d) p
  | choice first second, skip, c, p =>
    first.Tried skip c p ∨ first.match? skip c = none ∧ second.Tried skip c p
  | optional body, skip, c, p => body.Tried skip c p
  | many body, skip, c, p =>
    body.Tried skip c p ∨ ∃ b ms d ns, body.match? skip c = some (b, ms) ∧
      Rounds body skip b ns d ∧ body.Tried skip (skip d) p
  | phrase _ body, skip, c, p => body.match? skip c = none ∧ p = c ∨ body.Tried skip c p
  | compact _ body, _, c, p => body.match? id c = none ∧ p = c ∨ body.Tried id c p
  | token _ body, _, c, p => body.match? id c = none ∧ p = c

/-- The number is the offset of one of the cursors, if it is not zero. -/
def Reached (tried : Cursor → Prop) (offset : Nat) : Prop :=
  offset = 0 ∨ ∃ p, tried p ∧ p.offset = offset

variable {tried tried' : Cursor → Prop} {m n : Nat}

theorem reached_zero : Reached tried 0 := .inl rfl

theorem reached_offset {c : Cursor} (h : tried c) : Reached tried c.offset := .inr ⟨c, h, rfl⟩

theorem Reached.imp (h : Reached tried n) (himp : ∀ p, tried p → tried' p) : Reached tried' n :=
  Or.imp_right (fun ⟨p, hp, hoffset⟩ => ⟨p, himp p hp, hoffset⟩) h

theorem Reached.max (h : Reached tried m) (h' : Reached tried n) : Reached tried (max m n) := by
  rcases Nat.le_total m n with hle | hle
  · rwa [Nat.max_eq_right hle]
  · rwa [Nat.max_eq_left hle]

variable {e : Expr σ} {skip : Cursor → Cursor}

theorem reached_repeatFailure (he : ∀ c, Reached (e.Tried skip c) (e.failure skip c)) (rounds : Nat)
    (c : Cursor) :
    Reached (fun p => ∃ d ns, Rounds e skip c ns d ∧ e.Tried skip (skip d) p)
      (repeatFailure (fun c => e.match? skip (skip c)) (fun c => e.failure skip (skip c))
        rounds c) := by
  have here : ∀ c, Reached (fun p => ∃ d ns, Rounds e skip c ns d ∧ e.Tried skip (skip d) p)
      (e.failure skip (skip c)) := fun c =>
    (he (skip c)).imp fun p hp => ⟨c, [], .none c, hp⟩
  induction rounds generalizing c with
  | zero => exact here c
  | succ rounds ih =>
    rw [repeatFailure]
    split
    · exact here c
    · next b ms hmatch =>
      split
      · refine (here c).max ((ih b).imp ?_)
        rintro p ⟨d, ns, hrounds, hp⟩
        exact ⟨d, ms ++ ns, .more hmatch hrounds, hp⟩
      · exact here c

/-- The failure of an expression is where some part of it is tried in vain. -/
theorem Expr.reached_failure (e : Expr σ) (skip : Cursor → Cursor) (c : Cursor) :
    Reached (e.Tried skip c) (e.failure skip c) := by
  induction e generalizing skip c with
  | word | char | atEnd | notAhead => exact reached_zero
  | seq e₁ e₂ ih₁ ih₂ =>
    have hfirst : Reached ((seq e₁ e₂).Tried skip c) (e₁.failure skip c) :=
      (ih₁ skip c).imp fun _ => .inl
    rw [failure]
    split
    · exact hfirst
    · next d ns hmatch =>
      exact hfirst.max ((ih₂ skip (skip d)).imp fun _ hp => .inr ⟨d, ns, hmatch, hp⟩)
  | choice e₁ e₂ ih₁ ih₂ =>
    have hfirst : Reached ((choice e₁ e₂).Tried skip c) (e₁.failure skip c) :=
      (ih₁ skip c).imp fun _ => .inl
    rw [failure]
    split
    · next hnone => exact hfirst.max ((ih₂ skip c).imp fun _ hp => .inr ⟨hnone, hp⟩)
    · exact hfirst
  | optional e ih => exact ih skip c
  | many e ih =>
    have hfirst : Reached ((many e).Tried skip c) (e.failure skip c) :=
      (ih skip c).imp fun _ => .inl
    rw [failure]
    split
    · exact hfirst
    · next b ms hmatch =>
      refine hfirst.max ((reached_repeatFailure (ih skip) _ b).imp ?_)
      rintro p ⟨d, ns, hrounds, hp⟩
      exact .inr ⟨b, ms, d, ns, hmatch, hrounds, hp⟩
  | phrase s e ih =>
    have hbody : Reached ((phrase s e).Tried skip c) (e.failure skip c) :=
      (ih skip c).imp fun _ => .inr
    rw [failure]
    split
    · next hnone => exact (reached_offset (.inl ⟨hnone, rfl⟩)).max hbody
    · exact hbody
  | compact s e ih =>
    have hbody : Reached ((compact s e).Tried skip c) (e.failure id c) :=
      (ih id c).imp fun _ => .inr
    rw [failure]
    split
    · next hnone => exact (reached_offset (.inl ⟨hnone, rfl⟩)).max hbody
    · exact hbody
  | token s e _ =>
    rw [failure]
    split
    · exact reached_zero
    · next hnone => exact reached_offset ⟨Option.not_isSome_iff_eq_none.mp hnone, rfl⟩

/-! ## What is tried first -/

theorem Expr.failure_le_seq {e₁ e₂ : Expr σ} {c d : Cursor} {ns : List (Node σ)}
    (h : e₁.match? skip c = some (d, ns)) :
    e₂.failure skip (skip d) ≤ (seq e₁ e₂).failure skip c := by
  rw [Expr.failure, h]
  exact Nat.le_max_right _ _

theorem Expr.failure_le_phrase {s : σ} {c : Cursor} :
    e.failure skip c ≤ (phrase s e).failure skip c := by
  rw [Expr.failure]
  split
  · exact Nat.le_max_right _ _
  · exact Nat.le_refl _

theorem Expr.offset_le_phrase {s : σ} {c : Cursor} (h : e.match? skip c = none) :
    c.offset ≤ (phrase s e).failure skip c := by
  rw [Expr.failure, h]
  exact Nat.le_max_left _ _

end SchemaFilter.Grammar
