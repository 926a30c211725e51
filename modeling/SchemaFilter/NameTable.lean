import SchemaFilter.KeyMap

/-!
# Tables of named things

A table is a map by key that is filled with named things: a new item is stored under its own name,
the items of another table are taken over under the keys that they have there, and an item may be
changed where it is stored. That an item is still stored under its own name after any number of such
operations is a property of the operations, not of maps by key.

Main definitions and laws:

* `KeyMap.Keyed`: every item is stored under its own name; one lemma for each operation;
* `KeyMap.Built` with `Built.keyed`: the maps that the operations build are keyed;
* `NameTable.insert` with `find?_insert`: looking up after an insertion;
* `NameTable.merge` with `merge_eq_extend`: taking over a table is the insertion of its items.
-/

namespace SchemaFilter

/-- Things that carry a name. -/
class Named (α : Type) where
  name : α → String

variable {α : Type} [Named α]

/-! ## Keys and names -/

namespace KeyMap

/-- Every item is stored under its own name. -/
def Keyed (t : KeyMap α) : Prop := ∀ e ∈ t.entries, Named.name e.2 = e.1

theorem Keyed.put {t : KeyMap α} (h : t.Keyed) (a : α) : (t.put (Named.name a) a).Keyed := by
  intro e he
  rcases eq_or_mem_of_mem_putEntry he with rfl | he
  · rfl
  · exact h e he

/-- The keys of the other map are the names of its items, so that these keep their keys. -/
theorem Keyed.extend {t u : KeyMap α} (ht : t.Keyed) (hu : u.Keyed) : (t.extend u).Keyed := by
  unfold KeyMap.extend
  unfold Keyed at hu
  generalize u.entries = es at hu
  induction es generalizing t with
  | nil => exact ht
  | cons e es ih =>
    obtain ⟨he, hes⟩ := List.forall_mem_cons.mp hu
    have hput : (t.put e.1 e.2).Keyed := he ▸ ht.put e.2
    exact ih hput hes

theorem Keyed.modify {t : KeyMap α} (h : t.Keyed) (key : String) {f : α → α}
    (hf : ∀ a, Named.name (f a) = Named.name a) : (t.modify key f).Keyed := by
  intro e he
  obtain ⟨d, hd, rfl⟩ := List.mem_map.mp he
  split
  · exact (hf d.2).trans (h d hd)
  · exact h d hd

theorem Keyed.erase {t : KeyMap α} (h : t.Keyed) (key : String) : (t.erase key).Keyed :=
  fun e he => h e (List.mem_filter.mp he).1

/-- The maps that insertions under a name, takeovers, changes that keep the name, and removals
    build. -/
inductive Built : KeyMap α → Prop where
  | empty : Built empty
  | put {t : KeyMap α} (h : Built t) (a : α) : Built (t.put (Named.name a) a)
  | extend {t u : KeyMap α} (ht : Built t) (hu : Built u) : Built (t.extend u)
  | modify {t : KeyMap α} (h : Built t) (key : String) {f : α → α}
    (hf : ∀ a, Named.name (f a) = Named.name a) : Built (t.modify key f)
  | erase {t : KeyMap α} (h : Built t) (key : String) : Built (t.erase key)

/-- **Keys are names.** However a table is built, every item is stored under its own name. -/
theorem Built.keyed {t : KeyMap α} (h : t.Built) : t.Keyed := by
  induction h with
  | empty => exact fun _ he => absurd he List.not_mem_nil
  | put h a ih => exact ih.put a
  | extend ht hu iht ihu => exact iht.extend ihu
  | modify h key hf ih => exact ih.modify key hf
  | erase h key ih => exact ih.erase key

/-- Items stored under their names make up the entries. -/
theorem Keyed.entries_eq {t : KeyMap α} (h : t.Keyed) :
    t.entries = t.values.map fun a => (Named.name a, a) := by
  rw [values, List.map_map, List.map_congr_left (g := id), List.map_id]
  intro e he
  exact Prod.ext (h e he) rfl

theorem map_snd_map_name (l : List α) :
    (l.map fun a => (Named.name a, a)).map Prod.snd = l := by
  rw [List.map_map]
  exact List.map_id' l

/-- A name leads to the item that has it. -/
theorem Keyed.get?_eq {t : KeyMap α} (h : t.Keyed) (name : String) :
    t.get? name = t.values.find? (Named.name · == name) := by
  rw [get?, h.entries_eq]
  induction t.values with
  | nil => rfl
  | cons a as ih =>
    rw [List.map_cons, List.lookup_cons, List.find?_cons, ih, Bool.beq_comm]

end KeyMap

/-! ## Tables -/

/-- A map by key that was filled with named things. -/
structure NameTable (α : Type) [Named α] where
  byKey : KeyMap α
  built : byKey.Built

namespace NameTable

/-- The table without items. -/
def empty : NameTable α := ⟨.empty, .empty⟩

instance : Inhabited (NameTable α) := ⟨empty⟩

/-- The items in order. -/
def items (t : NameTable α) : List α := t.byKey.values

/-- The names under which items are stored, in order. -/
def names (t : NameTable α) : List String := t.byKey.keys

/-- The item stored under a name. -/
def find? (t : NameTable α) (name : String) : Option α := t.byKey.get? name

/-- Whether an item is stored under a name. -/
def contains (t : NameTable α) (name : String) : Bool := t.byKey.keys.contains name

/-- How many items there are. -/
def size (t : NameTable α) : Nat := t.items.length

/-- Whether there is no item. -/
def isEmpty (t : NameTable α) : Bool := t.items.isEmpty

/-- Stores an item under its name: it takes the place of the item stored there, or goes last. -/
def insert (t : NameTable α) (a : α) : NameTable α := ⟨t.byKey.put (Named.name a) a, t.built.put a⟩

/-- Stores items one after the other. -/
def extend (t : NameTable α) (as : List α) : NameTable α := as.foldl insert t

/-- Takes over the entries of another table in their order. -/
def merge (t u : NameTable α) : NameTable α := ⟨t.byKey.extend u.byKey, t.built.extend u.built⟩

/-- Changes the item stored under a name, which keeps its name. -/
def modify (t : NameTable α) (name : String) (f : α → α)
    (hf : ∀ a, Named.name (f a) = Named.name a) : NameTable α :=
  ⟨t.byKey.modify name f, t.built.modify name hf⟩

/-- Removes the item stored under a name, if there is one. -/
def erase (t : NameTable α) (name : String) : NameTable α := ⟨t.byKey.erase name, t.built.erase name⟩

/-! ### Items and names -/

/-- The names of a table are those of its items. -/
theorem names_eq (t : NameTable α) : t.names = t.items.map Named.name := by
  rw [names, KeyMap.keys, t.built.keyed.entries_eq, List.map_map]
  rfl

theorem find?_eq (t : NameTable α) (name : String) :
    t.find? name = t.items.find? (Named.name · == name) := t.built.keyed.get?_eq name

theorem nodup_names (t : NameTable α) : t.names.Nodup := t.byKey.nodup

theorem nodup (t : NameTable α) : (t.items.map Named.name).Nodup := t.names_eq ▸ t.nodup_names

/-- Only the item's own name leads to it. -/
theorem name_of_find? {t : NameTable α} {name : String} {a : α} (h : t.find? name = some a) :
    Named.name a = name := by
  rw [find?_eq] at h
  simpa using List.find?_some h

theorem contains_iff (t : NameTable α) (name : String) :
    t.contains name = true ↔ name ∈ t.names := List.contains_iff_mem

theorem eq_of_items_eq {t u : NameTable α} (h : t.items = u.items) : t = u := by
  have hentries : t.byKey.entries = u.byKey.entries := by
    rw [t.built.keyed.entries_eq, u.built.keyed.entries_eq]
    exact congrArg (List.map _) h
  cases t
  cases u
  cases KeyMap.eq_of_entries_eq hentries
  rfl

/-! ### Insertions -/

/-- The items with `a` in the place of the item that had its name, or at the end. -/
def put (a : α) : List α → List α
  | [] => [a]
  | b :: bs => if Named.name b = Named.name a then a :: bs else b :: put a bs

/-- A new item goes last. -/
theorem put_of_notMem {a : α} {l : List α} (h : Named.name a ∉ l.map Named.name) :
    put a l = l ++ [a] := by
  induction l with
  | nil => rfl
  | cons b bs ih =>
    rw [List.map_cons, List.mem_cons, not_or] at h
    rw [put, if_neg fun heq => h.1 heq.symm, ih h.2, List.cons_append]

theorem map_snd_putEntry (a : α) (l : List α) :
    (KeyMap.putEntry (Named.name a) a (l.map fun b => (Named.name b, b))).map Prod.snd =
      put a l := by
  induction l with
  | nil => rfl
  | cons b bs ih =>
    rw [List.map_cons, KeyMap.putEntry, put]
    split
    · rw [List.map_cons, KeyMap.map_snd_map_name]
    · rw [List.map_cons, ih]

@[simp] theorem items_insert (t : NameTable α) (a : α) : (t.insert a).items = put a t.items := by
  have h := map_snd_putEntry a t.items
  rwa [items, ← t.built.keyed.entries_eq] at h

theorem items_insert_of_notMem {t : NameTable α} {a : α} (h : Named.name a ∉ t.names) :
    (t.insert a).items = t.items ++ [a] := by
  rw [names_eq] at h
  rw [items_insert, put_of_notMem h]

@[simp] theorem names_empty : (empty : NameTable α).names = [] := rfl

/-- An insertion keeps the names and their order, and appends a new name at the end. -/
theorem names_insert (t : NameTable α) (a : α) :
    (t.insert a).names = if Named.name a ∈ t.names then t.names else t.names ++ [Named.name a] :=
  t.byKey.keys_put (Named.name a) a

/-- After an insertion its name leads to the new item, and every other name to what it did. -/
theorem find?_insert (t : NameTable α) (a : α) (name : String) :
    (t.insert a).find? name = if Named.name a = name then some a else t.find? name :=
  t.byKey.get?_put (Named.name a) a name

/-- Taking over a table is the insertion of its items. -/
theorem merge_eq_extend (t u : NameTable α) : t.merge u = t.extend u.items := by
  have hbyKey : ∀ (as : List α) (t : NameTable α),
      (t.extend as).byKey = as.foldl (fun t a => t.put (Named.name a) a) t.byKey := by
    intro as
    induction as with
    | nil => exact fun _ => rfl
    | cons a as ih => exact fun t => ih (t.insert a)
  have hentries : (t.byKey.extend u.byKey).entries = (t.extend u.items).byKey.entries := by
    rw [hbyKey, KeyMap.extend, u.built.keyed.entries_eq, List.foldl_map]
    rfl
  apply eq_of_items_eq
  exact congrArg (List.map Prod.snd) hentries

/-! ### Changes and removals -/

theorem names_modify (t : NameTable α) (name : String) {f : α → α}
    (hf : ∀ a, Named.name (f a) = Named.name a) : (t.modify name f hf).names = t.names :=
  t.byKey.keys_modify name f

/-- After a change its name leads to the changed item, and every other name to what it did. -/
theorem find?_modify (t : NameTable α) (name : String) {f : α → α}
    (hf : ∀ a, Named.name (f a) = Named.name a) (other : String) :
    (t.modify name f hf).find? other =
      if name = other then (t.find? other).map f else t.find? other :=
  t.byKey.get?_modify name f other

theorem items_erase (t : NameTable α) (name : String) :
    (t.erase name).items = t.items.filter (Named.name · != name) := by
  calc (t.byKey.entries.filter (·.1 != name)).map Prod.snd
    _ = ((t.items.map fun a => (Named.name a, a)).filter (·.1 != name)).map Prod.snd := by
      rw [items, ← t.built.keyed.entries_eq]
    _ = t.items.filter (Named.name · != name) := by
      rw [List.filter_map, KeyMap.map_snd_map_name]
      rfl

end NameTable

end SchemaFilter
