import SchemaFilter.Proofs.Number.Finite

/-!
# Documents

A *document* is a JSON value all of whose parts could have been read from a text: its integers fit
64 bits, with or without sign, its doubles are finite, and the members of its objects are sorted by
key, each key once. Every value that is read is a document.

Main results:

* `Json.nested_induction`: induction over a value, the values inside it first;
* `Json.isDocument_of_parse?`: what is read from a text is a document.
-/

namespace SchemaFilter.Json

/-! ## The values inside a value -/

/-- A property of all JSON values, shown of arrays and objects from what they hold. -/
@[elab_as_elim]
theorem nested_induction {motive : Json → Prop} (null : motive .null)
    (bool : ∀ b, motive (.bool b)) (integer : ∀ i, motive (.integer i))
    (number : ∀ x, motive (.number x)) (string : ∀ s, motive (.string s))
    (array : ∀ es : List Json, (∀ e ∈ es, motive e) → motive (.array es))
    (object : ∀ ms : List (String × Json), (∀ m ∈ ms, motive m.2) → motive (.object ms))
    (j : Json) : motive j :=
  @Json.rec motive (fun es => ∀ e ∈ es, motive e) (fun ms => ∀ m ∈ ms, motive m.2)
    (fun m => motive m.2)
    null bool integer number string array object
    (List.forall_mem_nil _) (fun _ _ he hes => List.forall_mem_cons.mpr ⟨he, hes⟩)
    (List.forall_mem_nil _) (fun _ _ hm hms => List.forall_mem_cons.mpr ⟨hm, hms⟩)
    (fun _ _ h => h) j

mutual

/-- The value itself and all values inside it. -/
def parts : Json → List Json
  | array es => array es :: elementParts es
  | object ms => object ms :: memberParts ms
  | j => [j]

def elementParts : List Json → List Json
  | [] => []
  | e :: es => e.parts ++ elementParts es

def memberParts : List (String × Json) → List Json
  | [] => []
  | (_, value) :: ms => value.parts ++ memberParts ms

end

theorem mem_elementParts {p : Json} {es : List Json} :
    p ∈ elementParts es ↔ ∃ e ∈ es, p ∈ e.parts := by
  induction es with
  | nil => simp [elementParts]
  | cons e es ih => simp [elementParts, ih]

theorem mem_memberParts {p : Json} {ms : List (String × Json)} :
    p ∈ memberParts ms ↔ ∃ m ∈ ms, p ∈ m.2.parts := by
  induction ms with
  | nil => simp [memberParts]
  | cons m ms ih => simp [memberParts, ih]

mutual

/-- How deep arrays and objects are nested. -/
def depth : Json → Nat
  | array es => elementsDepth es + 1
  | object ms => membersDepth ms + 1
  | _ => 0

def elementsDepth : List Json → Nat
  | [] => 0
  | e :: es => max e.depth (elementsDepth es)

def membersDepth : List (String × Json) → Nat
  | [] => 0
  | (_, value) :: ms => max value.depth (membersDepth ms)

end

theorem elementsDepth_le {room : Nat} {es : List Json} :
    elementsDepth es ≤ room ↔ ∀ e ∈ es, e.depth ≤ room := by
  induction es with
  | nil => simp [elementsDepth]
  | cons e es ih => simp [elementsDepth, ih]

theorem membersDepth_le {room : Nat} {ms : List (String × Json)} :
    membersDepth ms ≤ room ↔ ∀ m ∈ ms, m.2.depth ≤ room := by
  induction ms with
  | nil => simp [membersDepth]
  | cons m ms ih => simp [membersDepth, ih]

/-! ## Documents -/

/-- The keys stand in strictly increasing order. -/
def Sorted (ms : List (String × Json)) : Prop := ms.Pairwise fun m m' => m.1 < m'.1

/-- What holds of a value that was read, apart from the values inside it. -/
def Sound : Json → Prop
  | integer i => -0x8000000000000000 ≤ i ∧ i < 0x10000000000000000
  | number x => x.isFinite = true
  | object ms => Sorted ms
  | _ => True

/-- All parts of the value could have been read. -/
def IsDocument (j : Json) : Prop := ∀ p ∈ j.parts, p.Sound

@[simp]
theorem isDocument_null : Json.null.IsDocument := by
  simp [IsDocument, parts, Sound]

@[simp]
theorem isDocument_bool (b : Bool) : (Json.bool b).IsDocument := by
  simp [IsDocument, parts, Sound]

@[simp]
theorem isDocument_string (s : String) : (Json.string s).IsDocument := by
  simp [IsDocument, parts, Sound]

@[simp]
theorem isDocument_integer {i : Int} :
    (integer i).IsDocument ↔ -0x8000000000000000 ≤ i ∧ i < 0x10000000000000000 := by
  simp [IsDocument, parts, Sound]

@[simp]
theorem isDocument_number {x : Binary64} : (number x).IsDocument ↔ x.isFinite = true := by
  simp [IsDocument, parts, Sound]

@[simp]
theorem isDocument_array {es : List Json} :
    (array es).IsDocument ↔ ∀ e ∈ es, e.IsDocument := by
  simp only [IsDocument, parts, List.mem_cons, mem_elementParts]
  constructor
  · intro h e he p hp
    exact h p (Or.inr ⟨e, he, hp⟩)
  · rintro h p (rfl | ⟨e, he, hp⟩)
    · trivial
    · exact h e he p hp

@[simp]
theorem isDocument_object {ms : List (String × Json)} :
    (object ms).IsDocument ↔ Sorted ms ∧ ∀ m ∈ ms, m.2.IsDocument := by
  simp only [IsDocument, parts, List.mem_cons, mem_memberParts]
  constructor
  · intro h
    exact ⟨h _ (Or.inl rfl), fun m hm p hp => h p (Or.inr ⟨m, hm, hp⟩)⟩
  · rintro ⟨hsorted, h⟩ p (rfl | ⟨m, hm, hp⟩)
    · exact hsorted
    · exact h m hm p hp

/-! ## Members in order -/

theorem mem_of_mem_putMember {key : String} {value : Json} {ms : List (String × Json)}
    {m : String × Json} (h : m ∈ putMember key value ms) : m = (key, value) ∨ m ∈ ms := by
  induction ms with
  | nil => exact Or.inl (List.mem_singleton.mp h)
  | cons head ms ih =>
    simp only [putMember] at h
    split at h
    · obtain rfl | h := List.mem_cons.mp h
      · exact Or.inl rfl
      · exact Or.inr (List.mem_cons_of_mem _ h)
    split at h
    · exact List.mem_cons.mp h
    · obtain rfl | h := List.mem_cons.mp h
      · exact Or.inr List.mem_cons_self
      · exact (ih h).imp_right (List.mem_cons_of_mem _)

theorem lt_of_ne_of_not_lt {s t : String} (hne : s ≠ t) (h : ¬ s < t) : t < s := by
  refine Decidable.byContradiction fun h' => hne ?_
  exact String.le_antisymm (String.not_lt.mp h') (String.not_lt.mp h)

/-- Putting a member keeps the order. -/
theorem Sorted.putMember {ms : List (String × Json)} (hms : Sorted ms) (key : String)
    (value : Json) : Sorted (Json.putMember key value ms) := by
  induction ms with
  | nil => exact List.pairwise_singleton _ _
  | cons head ms ih =>
    obtain ⟨hhead, htail⟩ := List.pairwise_cons.mp hms
    simp only [Json.putMember]
    split
    · next heq => exact List.pairwise_cons.mpr ⟨fun m hm => heq ▸ hhead m hm, htail⟩
    split
    · next hlt =>
      refine List.pairwise_cons.mpr ⟨fun m hm => ?_, hms⟩
      obtain rfl | hm := List.mem_cons.mp hm
      · exact hlt
      · exact String.lt_trans hlt (hhead m hm)
    · next hne hlt =>
      refine List.pairwise_cons.mpr ⟨fun m hm => ?_, ih htail⟩
      obtain rfl | hm := mem_of_mem_putMember hm
      · exact lt_of_ne_of_not_lt hne hlt
      · exact hhead m hm

theorem putMember_of_lt {key : String} {value : Json} {ms : List (String × Json)}
    (h : ∀ m ∈ ms, m.1 < key) : Json.putMember key value ms = ms ++ [(key, value)] := by
  induction ms with
  | nil => rfl
  | cons head ms ih =>
    have hlt : head.1 < key := h head List.mem_cons_self
    have hne : key ≠ head.1 := fun heq => String.lt_irrefl key (heq ▸ hlt)
    have hgt : ¬ key < head.1 := fun hgt => String.lt_irrefl _ (String.lt_trans hlt hgt)
    rw [Json.putMember, if_neg hne, if_neg hgt, ih fun m hm => h m (List.mem_cons_of_mem _ hm)]
    rfl

theorem ofMembers_eq (ms : List (String × Json)) :
    ofMembers ms = .object (ms.foldl (fun sorted m => putMember m.1 m.2 sorted) []) :=
  rfl

/-- Members that are in order stay as they are. -/
theorem ofMembers_of_sorted {ms : List (String × Json)} (h : Sorted ms) :
    ofMembers ms = .object ms := by
  -- the members still to come all belong behind those that are in their places
  suffices hfold : ∀ done : List (String × Json), Sorted (done ++ ms) →
      ms.foldl (fun sorted m => putMember m.1 m.2 sorted) done = done ++ ms by
    rw [ofMembers_eq, hfold [] h, List.nil_append]
  clear h
  induction ms with
  | nil => simp
  | cons m ms ih =>
    intro done hdone
    have hlt : ∀ m' ∈ done, m'.1 < m.1 := fun m' hm' =>
      (List.pairwise_append.mp hdone).2.2 m' hm' m List.mem_cons_self
    rw [List.append_cons] at hdone ⊢
    rw [List.foldl_cons, putMember_of_lt hlt]
    exact ih (done ++ [m]) hdone

theorem isDocument_ofMembers {ms : List (String × Json)} (h : ∀ m ∈ ms, m.2.IsDocument) :
    (ofMembers ms).IsDocument := by
  suffices hfold : ∀ done : List (String × Json), (object done).IsDocument →
      (object (ms.foldl (fun sorted m => putMember m.1 m.2 sorted) done)).IsDocument from
    hfold [] (isDocument_object.mpr ⟨List.Pairwise.nil, List.forall_mem_nil _⟩)
  induction ms with
  | nil => exact fun done hdone => hdone
  | cons m ms ih =>
    intro done hdone
    obtain ⟨hsorted, hdone⟩ := isDocument_object.mp hdone
    refine ih (fun m' hm' => h m' (List.mem_cons_of_mem _ hm')) _ ?_
    refine isDocument_object.mpr ⟨hsorted.putMember m.1 m.2, fun m' hm' => ?_⟩
    obtain rfl | hm' := mem_of_mem_putMember hm'
    · exact h m List.mem_cons_self
    · exact hdone m' hm'

/-! ## Values that are read -/

theorem NumberText.isDocument_of_value? {n : NumberText} {j : Json} (h : n.value? = some j) :
    j.IsDocument := by
  have hdouble (h' : (n.magnitude?).map (fun x => Json.number (if n.negative then x.neg else x)) =
      some j) : j.IsDocument := by
    obtain ⟨x, hx, rfl⟩ := Option.map_eq_some_iff.mp h'
    have hfinite := NumberText.isFinite_of_magnitude? hx
    refine isDocument_number.mpr ?_
    split
    · rwa [Binary64.isFinite_neg]
    · exact hfinite
  unfold NumberText.value? at h
  split at h
  · next m hm =>
    have hword : m ≤ maxWord := by simpa [hm] using absorb_le 0 n.whole (by decide)
    have hword' : m < 0x10000000000000000 := Nat.lt_of_le_of_lt hword (by decide)
    split at h
    · obtain rfl := Option.some.inj h
      exact isDocument_integer.mpr (by omega)
    split at h
    · next hneg =>
      obtain rfl := Option.some.inj h
      have hsome : (int64OfInt? (-m)).isSome = true := by
        simp only [Bool.and_eq_true] at hneg
        exact hneg.2.2
      have hrange := isSome_int64OfInt?.mp hsome
      exact isDocument_integer.mpr (by omega)
    · exact hdouble h
  · exact hdouble h

/-- A property of all sources, shown of arrays and objects from what they hold. -/
@[elab_as_elim]
theorem Source.nested_induction {motive : Source → Prop} (null : motive .null)
    (bool : ∀ b, motive (.bool b)) (number : ∀ n, motive (.number n))
    (string : ∀ units, motive (.string units))
    (array : ∀ es : List Source, (∀ e ∈ es, motive e) → motive (.array es))
    (object : ∀ ms : List (List StringUnit × Source), (∀ m ∈ ms, motive m.2) →
      motive (.object ms))
    (s : Source) : motive s :=
  @Source.rec motive (fun es => ∀ e ∈ es, motive e) (fun ms => ∀ m ∈ ms, motive m.2)
    (fun m => motive m.2)
    null bool number string array object
    (List.forall_mem_nil _) (fun _ _ he hes => List.forall_mem_cons.mpr ⟨he, hes⟩)
    (List.forall_mem_nil _) (fun _ _ hm hms => List.forall_mem_cons.mpr ⟨hm, hms⟩)
    (fun _ _ h => h) s

theorem isDocument_of_elementsToJson? {room : Nat} {es : List Source}
    (hes : ∀ e ∈ es, ∀ j, e.toJson? room = some j → j.IsDocument) :
    ∀ js, elementsToJson? room es = some js → ∀ j ∈ js, j.IsDocument := by
  induction es with
  | nil =>
    intro js h
    obtain rfl := Option.some.inj h
    exact List.forall_mem_nil _
  | cons e es ih =>
    obtain ⟨he, hes⟩ := List.forall_mem_cons.mp hes
    intro js h
    obtain ⟨j, hj, h⟩ := Option.bind_eq_some_iff.mp h
    obtain ⟨js, hjs, h⟩ := Option.bind_eq_some_iff.mp h
    obtain rfl := Option.some.inj h
    exact List.forall_mem_cons.mpr ⟨he j hj, ih hes js hjs⟩

theorem isDocument_of_membersToJson? {room : Nat} {ms : List (List StringUnit × Source)}
    (hms : ∀ m ∈ ms, ∀ j, m.2.toJson? room = some j → j.IsDocument) :
    ∀ js, membersToJson? room ms = some js → ∀ m ∈ js, m.2.IsDocument := by
  induction ms with
  | nil =>
    intro js h
    obtain rfl := Option.some.inj h
    exact List.forall_mem_nil _
  | cons m ms ih =>
    obtain ⟨hm, hms⟩ := List.forall_mem_cons.mp hms
    intro js h
    obtain ⟨key, -, h⟩ := Option.bind_eq_some_iff.mp h
    obtain ⟨j, hj, h⟩ := Option.bind_eq_some_iff.mp h
    obtain ⟨js, hjs, h⟩ := Option.bind_eq_some_iff.mp h
    obtain rfl := Option.some.inj h
    exact List.forall_mem_cons.mpr ⟨hm j hj, ih hms js hjs⟩

theorem isDocument_of_toJson? (s : Source) :
    ∀ room j, s.toJson? room = some j → j.IsDocument := by
  induction s using Source.nested_induction with
  | null =>
    intro room j h
    obtain rfl : Json.null = j := by simpa [Source.toJson?] using h
    exact isDocument_null
  | bool b =>
    intro room j h
    obtain rfl : Json.bool b = j := by simpa [Source.toJson?] using h
    exact isDocument_bool b
  | number n =>
    intro room j h
    exact NumberText.isDocument_of_value? (by simpa [Source.toJson?] using h)
  | string units =>
    intro room j h
    rw [Source.toJson?] at h
    obtain ⟨s, -, rfl⟩ := Option.map_eq_some_iff.mp h
    exact isDocument_string s
  | array es ih =>
    intro room j h
    cases room with
    | zero => exact absurd h (by simp [Source.toJson?])
    | succ room =>
      obtain ⟨js, hjs, rfl⟩ := Option.map_eq_some_iff.mp h
      exact isDocument_array.mpr (isDocument_of_elementsToJson? (fun e he => ih e he room) js hjs)
  | object ms ih =>
    intro room j h
    cases room with
    | zero => exact absurd h (by simp [Source.toJson?])
    | succ room =>
      obtain ⟨js, hjs, rfl⟩ := Option.map_eq_some_iff.mp h
      exact isDocument_ofMembers (isDocument_of_membersToJson? (fun m hm => ih m hm room) js hjs)

theorem isDocument_of_parse? {text : String} {j : Json} (h : parse? text = some j) :
    j.IsDocument := by
  obtain ⟨s, -, hs⟩ := Option.bind_eq_some_iff.mp h
  exact isDocument_of_toJson? s maxDepth j hs

end SchemaFilter.Json
