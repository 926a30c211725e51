/-!
# Maps by key

An insertion-ordered map: each key has a value, and a value that is stored under a key takes the
place of the one that was stored there, or goes last. The keys stand beside the values and say
nothing about them.

Main definitions and laws:

* `KeyMap.put` with `get?_put`, `keys_put`: storing a value under a key;
* `KeyMap.extend`: storing all entries of another map, under the keys they have there;
* `KeyMap.modify` with `get?_modify`: changing a value in its place; `KeyMap.erase`: removal.
-/

namespace SchemaFilter

/-- Entries in order, each a key and its value; no two of them have one key. -/
structure KeyMap (α : Type) where
  entries : List (String × α)
  nodup : (entries.map Prod.fst).Nodup

namespace KeyMap

variable {α : Type}

/-- The map without entries. -/
def empty : KeyMap α := ⟨[], List.nodup_nil⟩

/-- The keys in order. -/
def keys (t : KeyMap α) : List String := t.entries.map Prod.fst

/-- The values in order. -/
def values (t : KeyMap α) : List α := t.entries.map Prod.snd

/-- The value stored under a key. -/
def get? (t : KeyMap α) (key : String) : Option α := t.entries.lookup key

theorem eq_of_entries_eq {t u : KeyMap α} (h : t.entries = u.entries) : t = u := by
  cases t
  cases u
  cases h
  rfl

/-! ## Storing -/

/-- The entries with the value in the place of the one that its key had, or at the end. -/
def putEntry (key : String) (a : α) : List (String × α) → List (String × α)
  | [] => [(key, a)]
  | e :: es => if e.1 = key then (key, a) :: es else e :: putEntry key a es

/-- The keys after `putEntry`: unchanged if the key was there, else with the new one at the end. -/
theorem map_fst_putEntry (key : String) (a : α) (es : List (String × α)) :
    (putEntry key a es).map Prod.fst =
      if key ∈ es.map Prod.fst then es.map Prod.fst else es.map Prod.fst ++ [key] := by
  induction es with
  | nil => simp [putEntry]
  | cons e es ih =>
    by_cases h : e.1 = key
    · simp [putEntry, h]
    · have h' : key ≠ e.1 := fun he => h he.symm
      simp only [putEntry, if_neg h, List.map_cons, ih, List.mem_cons, h', false_or]
      split <;> simp

theorem nodup_map_fst_putEntry (key : String) (a : α) {es : List (String × α)}
    (h : (es.map Prod.fst).Nodup) : ((putEntry key a es).map Prod.fst).Nodup := by
  rw [map_fst_putEntry]
  split
  · exact h
  · next hn =>
    rw [List.nodup_append]
    refine ⟨h, by simp, ?_⟩
    intro x hx y hy
    rw [List.mem_singleton] at hy
    rintro rfl
    exact hn (hy ▸ hx)

theorem eq_or_mem_of_mem_putEntry {key : String} {a : α} {es : List (String × α)}
    {e : String × α} (h : e ∈ putEntry key a es) : e = (key, a) ∨ e ∈ es := by
  induction es with
  | nil => exact .inl (List.mem_singleton.mp h)
  | cons d es ih =>
    rw [putEntry] at h
    split at h
    · exact (List.mem_cons.mp h).imp_right (List.mem_cons_of_mem d)
    · rcases List.mem_cons.mp h with rfl | h
      · exact .inr List.mem_cons_self
      · exact (ih h).imp_right (List.mem_cons_of_mem d)

theorem lookup_entry_cons (key : String) (a : α) (es : List (String × α)) (k : String) :
    ((key, a) :: es).lookup k = if key = k then some a else es.lookup k := by
  rw [List.lookup_cons]
  by_cases h : key = k
  · rw [if_pos h, beq_iff_eq.mpr h.symm]
  · rw [if_neg h, beq_eq_false_iff_ne.mpr (Ne.symm h)]

theorem lookup_putEntry (key : String) (a : α) (es : List (String × α)) (k : String) :
    (putEntry key a es).lookup k = if key = k then some a else es.lookup k := by
  induction es with
  | nil => exact lookup_entry_cons key a [] k
  | cons e es ih =>
    obtain ⟨key', b⟩ := e
    rw [putEntry, lookup_entry_cons]
    by_cases h : key' = key
    · rw [if_pos h, lookup_entry_cons, h]
      split <;> rfl
    · rw [if_neg h, lookup_entry_cons, ih]
      by_cases hk : key' = k
      · have hne : key ≠ k := fun he => h (hk.trans he.symm)
        rw [if_pos hk, if_neg hne, if_pos hk]
      · rw [if_neg hk, if_neg hk]

/-- Stores a value under a key. -/
def put (t : KeyMap α) (key : String) (a : α) : KeyMap α :=
  ⟨putEntry key a t.entries, nodup_map_fst_putEntry key a t.nodup⟩

/-- Storing keeps the keys and their order, and appends a new key at the end. -/
theorem keys_put (t : KeyMap α) (key : String) (a : α) :
    (t.put key a).keys = if key ∈ t.keys then t.keys else t.keys ++ [key] :=
  map_fst_putEntry key a t.entries

/-- After storing, the key leads to the new value, and every other key to what it did. -/
theorem get?_put (t : KeyMap α) (key : String) (a : α) (k : String) :
    (t.put key a).get? k = if key = k then some a else t.get? k :=
  lookup_putEntry key a t.entries k

/-- Stores the entries of another map in their order, each under the key that it has there. -/
def extend (t u : KeyMap α) : KeyMap α := u.entries.foldl (fun t e => t.put e.1 e.2) t

/-! ## Changing and removing -/

/-- The entries with the value of a key changed in its place. -/
def modifyEntry (key : String) (f : α → α) (es : List (String × α)) : List (String × α) :=
  es.map fun e => if e.1 = key then (e.1, f e.2) else e

theorem map_fst_modifyEntry (key : String) (f : α → α) (es : List (String × α)) :
    (modifyEntry key f es).map Prod.fst = es.map Prod.fst := by
  rw [modifyEntry, List.map_map]
  apply List.map_congr_left
  intro e _
  rw [Function.comp_apply]
  split <;> rfl

theorem lookup_modifyEntry (key : String) (f : α → α) (es : List (String × α)) (k : String) :
    (modifyEntry key f es).lookup k =
      if key = k then (es.lookup k).map f else es.lookup k := by
  induction es with
  | nil => simp [modifyEntry]
  | cons e es ih =>
    obtain ⟨key', b⟩ := e
    have hcons : modifyEntry key f ((key', b) :: es) =
        (key', if key' = key then f b else b) :: modifyEntry key f es := by
      rw [modifyEntry, List.map_cons]
      split <;> rfl
    rw [hcons, lookup_entry_cons, lookup_entry_cons, ih]
    by_cases hk : key' = k
    · subst hk
      rw [if_pos rfl, if_pos rfl]
      by_cases h : key = key'
      · rw [if_pos h, if_pos h.symm, Option.map_some]
      · rw [if_neg h, if_neg (Ne.symm h)]
    · rw [if_neg hk, if_neg hk]

/-- Changes the value that is stored under a key, if there is one. -/
def modify (t : KeyMap α) (key : String) (f : α → α) : KeyMap α :=
  ⟨modifyEntry key f t.entries, (map_fst_modifyEntry key f t.entries).symm ▸ t.nodup⟩

theorem keys_modify (t : KeyMap α) (key : String) (f : α → α) :
    (t.modify key f).keys = t.keys := map_fst_modifyEntry key f t.entries

/-- After a change the key leads to the changed value, and every other key to what it did. -/
theorem get?_modify (t : KeyMap α) (key : String) (f : α → α) (k : String) :
    (t.modify key f).get? k = if key = k then (t.get? k).map f else t.get? k :=
  lookup_modifyEntry key f t.entries k

/-- Removes the entry of a key, if there is one. -/
def erase (t : KeyMap α) (key : String) : KeyMap α :=
  ⟨t.entries.filter (·.1 != key), t.nodup.sublist (List.filter_sublist.map _)⟩

end KeyMap

end SchemaFilter
