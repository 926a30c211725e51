import Mathlib.Data.List.Induction
import Mathlib.Data.List.Nodup
import Mathlib.Tactic.SplitIfs
import SchemaFilter.NameTable

/-!
# What is found in a table

A name leads to an item exactly if the item is in the table and has the name. After the insertion of
many items a name leads to the last of them that has it, and the names stand in the order of their
first occurrence. After the removal of many names a table holds the other items, in their order.

Results:

* `NameTable.find?_eq_some_iff`: what a name leads to;
* `NameTable.names_extend`, `NameTable.find?_extend`: names and items after many insertions;
* `NameTable.items_foldl_erase`, `NameTable.find?_foldl_erase`: items after many removals.
-/

namespace SchemaFilter

/-! ## First occurrences -/

section

variable {β : Type} [DecidableEq β]

/-- A further item is there already, or occurs for the first time. -/
theorem eraseDups_concat (l : List β) (b : β) :
    (l ++ [b]).eraseDups = if b ∈ l then l.eraseDups else l.eraseDups ++ [b] := by
  rw [List.eraseDups_append]
  split_ifs with h
  · rw [List.removeAll, List.filter_cons_of_neg (by simpa using h), List.filter_nil,
      List.eraseDups_nil, List.append_nil]
  · rw [List.removeAll, List.filter_cons_of_pos (by simpa using h), List.filter_nil]
    rfl

theorem eraseDups_of_nodup {l : List β} (h : l.Nodup) : l.eraseDups = l := by
  induction l with
  | nil => rfl
  | cons b l ih =>
    obtain ⟨hb, hl⟩ := List.nodup_cons.mp h
    have hfilter : (l.filter fun c => !c == b) = l := by
      rw [List.filter_eq_self]
      intro c hc
      have hne : c ≠ b := fun e => hb (e ▸ hc)
      simpa using hne
    rw [List.eraseDups_cons, hfilter, ih hl]

end

namespace NameTable

variable {α : Type} [Named α]

theorem mem_of_find? {t : NameTable α} {name : String} {a : α} (h : t.find? name = some a) :
    a ∈ t.items := by
  rw [find?_eq] at h
  exact List.mem_of_find?_eq_some h

/-- A name leads to the item that has it. -/
theorem find?_eq_some_iff {t : NameTable α} {name : String} {a : α} :
    t.find? name = some a ↔ a ∈ t.items ∧ Named.name a = name := by
  constructor
  · intro h
    exact ⟨mem_of_find? h, name_of_find? h⟩
  · rintro ⟨hmem, rfl⟩
    cases h : t.find? (Named.name a) with
    | none =>
      rw [find?_eq] at h
      exact absurd (List.find?_eq_none.mp h a hmem) (by simp)
    | some b =>
      have hname : Named.name b = Named.name a := name_of_find? h
      rw [List.inj_on_of_nodup_map t.nodup (mem_of_find? h) hmem hname]

theorem find?_eq_none_iff {t : NameTable α} {name : String} :
    t.find? name = none ↔ name ∉ t.names := by
  simp [find?_eq, names_eq]

theorem contains_iff_exists {t : NameTable α} {name : String} :
    t.contains name ↔ ∃ a, t.find? name = some a := by
  rw [contains_iff, ← Option.isSome_iff_exists, Option.isSome_iff_ne_none, Ne, find?_eq_none_iff,
    not_not]

theorem extend_concat (t : NameTable α) (as : List α) (a : α) :
    t.extend (as ++ [a]) = (t.extend as).insert a := by
  rw [extend, extend, List.foldl_append, List.foldl_cons, List.foldl_nil]

/-- The names after many insertions, in the order of first occurrence. -/
theorem names_extend (t : NameTable α) (as : List α) :
    (t.extend as).names = (t.names ++ as.map Named.name).eraseDups := by
  induction as using List.reverseRecOn with
  | nil =>
    rw [List.map_nil, List.append_nil, eraseDups_of_nodup t.nodup_names]
    rfl
  | append_singleton as a ih =>
    rw [extend_concat, names_insert, ih, List.map_append, List.map_singleton, ← List.append_assoc,
      eraseDups_concat]
    simp only [List.mem_eraseDups]

/-- Items of new and distinct names all go last. -/
theorem items_extend_of_nodup {t : NameTable α} {as : List α}
    (h : ((t.items ++ as).map Named.name).Nodup) : (t.extend as).items = t.items ++ as := by
  induction as using List.reverseRecOn with
  | nil => exact (List.append_nil _).symm
  | append_singleton as a ih =>
    rw [← List.append_assoc, List.map_append, List.map_singleton, List.nodup_append] at h
    have hnew : Named.name a ∉ (t.extend as).names := by
      rw [names_eq, ih h.1]
      exact fun hmem => h.2.2 _ hmem _ (List.mem_singleton_self _) rfl
    rw [extend_concat, items_insert_of_notMem hnew, ih h.1, List.append_assoc]

theorem items_extend_empty {as : List α} (h : (as.map Named.name).Nodup) :
    (empty.extend as).items = as := by
  have hnodup : ((empty.items ++ as).map Named.name).Nodup := h
  exact items_extend_of_nodup hnodup

/-- The items of a table make it up. -/
theorem extend_empty (t : NameTable α) : empty.extend t.items = t :=
  eq_of_items_eq (items_extend_empty t.nodup)

/-- After the insertion of items of distinct names, a name leads to the one of them that has it, and
    every other name to what it did. -/
theorem find?_extend (t : NameTable α) {as : List α} (h : (as.map Named.name).Nodup)
    (name : String) :
    (t.extend as).find? name = (as.find? (Named.name · == name)).or (t.find? name) := by
  induction as using List.reverseRecOn with
  | nil => rfl
  | append_singleton as a ih =>
    rw [List.map_append, List.map_singleton, List.nodup_append] at h
    rw [extend_concat, find?_insert, ih h.1, List.find?_append]
    split_ifs with hname
    · have hnone : as.find? (Named.name · == name) = none := by
        rw [List.find?_eq_none]
        intro b hb heq
        have hb : Named.name b ≠ Named.name a :=
          h.2.2 _ (List.mem_map_of_mem hb) _ (List.mem_singleton_self _)
        exact hb ((beq_iff_eq.mp heq).trans hname.symm)
      simp [hnone, hname]
    · simp [hname]

/-! ## Other tables -/

/-- The names of the first table come first. -/
theorem names_merge (t u : NameTable α) :
    (t.merge u).names = (t.names ++ u.names).eraseDups := by
  rw [merge_eq_extend, names_extend, ← names_eq]

/-- A name leads to the item of the second table, if that has one. -/
theorem find?_merge (t u : NameTable α) (name : String) :
    (t.merge u).find? name = (u.find? name).or (t.find? name) := by
  rw [merge_eq_extend, find?_extend t u.nodup, ← find?_eq]

/-! ## Removals -/

theorem erase_of_find?_eq_none {t : NameTable α} {name : String} (h : t.find? name = none) :
    t.erase name = t := by
  apply eq_of_items_eq
  rw [items_erase, List.filter_eq_self]
  intro a ha
  rw [bne_iff_ne]
  rintro rfl
  rw [find?_eq_none_iff, names_eq] at h
  exact h (List.mem_map_of_mem ha)

/-- After many removals the items of the other names are left, in their order. -/
theorem items_foldl_erase (t : NameTable α) (names : List String) :
    (names.foldl erase t).items = t.items.filter (Named.name · ∉ names) := by
  induction names generalizing t with
  | nil => simp
  | cons name names ih =>
    rw [List.foldl_cons, ih, items_erase, List.filter_filter]
    apply List.filter_congr
    intro a _
    rw [Bool.eq_iff_iff]
    simp [and_comm]

theorem find?_foldl_erase (t : NameTable α) (names : List String) (name : String) :
    (names.foldl erase t).find? name = if name ∈ names then none else t.find? name := by
  split_ifs with hname
  · rw [find?_eq_none_iff, names_eq, items_foldl_erase]
    simp only [List.mem_map, List.mem_filter]
    rintro ⟨a, ⟨_, ha⟩, rfl⟩
    exact of_decide_eq_true ha hname
  · apply Option.ext
    intro a
    rw [find?_eq_some_iff, find?_eq_some_iff, items_foldl_erase, List.mem_filter]
    constructor
    · rintro ⟨⟨ha, _⟩, rfl⟩
      exact ⟨ha, rfl⟩
    · rintro ⟨ha, rfl⟩
      exact ⟨⟨ha, decide_eq_true hname⟩, rfl⟩

end NameTable

end SchemaFilter
