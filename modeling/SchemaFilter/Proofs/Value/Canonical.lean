import SchemaFilter.Proofs.Json.Reading
import SchemaFilter.Value.Json

/-!
# Values that were stored

A value is stored without a mark of its kind, so that reading it gives the value of the first kind
that takes the stored JSON. What comes back is the *canonical* value: kinds that have a text become
strings, bytes a list of integers, and embedded JSON the plain values of its shape.

Main results:

* `Value.untagged?_eq_ofJson`: the order in which the kinds are declared fixes what a JSON value is
  read as, whatever the kinds with a text make of scalars;
* `Value.ofJson_toJson`, `Value.canon_ofJson`: the value that was stored is read as its canonical
  value, and every value that is read is canonical;
* `Value.reads_stored_as_canon`: both for texts, where a value that is nested no deeper than is
  allowed and whose floats are read back comes back as its canonical value.
-/

namespace SchemaFilter.Value

/-! ## The first kind that takes a value -/

/-- The kinds in order of declaration. -/
def Kind.declared : List Kind :=
  [.null, .bool, .int, .float, .string, .uuid, .decimal, .dateTime, .date, .time, .list, .bytes,
    .json]

/-- How the kinds that have a text take a JSON value. Whatever scalars they take, they take neither
    arrays nor objects. -/
structure TextReaders where
  read? : Kind → Json → Option Value
  read?_array : ∀ kind es, read? kind (.array es) = none
  read?_object : ∀ kind ms, read? kind (.object ms) = none

/-- The byte that an integer stands for. -/
def byteOfJson? : Json → Option UInt8
  | .integer i => if 0 ≤ i ∧ i < 256 then some (.ofNat i.toNat) else none
  | _ => none

/-- How one kind takes a JSON value; `elements` are those of an array, each read on its own. -/
def Kind.read? (texts : TextReaders) (elements : Option (List Value)) : Kind → Json → Option Value
  | null, .null => some .null
  | bool, .bool b => some (.bool b)
  | int, .integer i => (int64OfInt? i).map .int
  | float, .integer i => some (.float (.ofInt i))
  | float, .number x => some (.float x)
  | string, .string s => some (.string s)
  | uuid, j => texts.read? uuid j
  | decimal, j => texts.read? decimal j
  | dateTime, j => texts.read? dateTime j
  | date, j => texts.read? date j
  | time, j => texts.read? time j
  | list, .array _ => elements.map .list
  | bytes, .array es => (es.mapM byteOfJson?).map .bytes
  | json, j => some (.json j)
  | _, _ => none

mutual

/-- The value of the first kind in order of declaration that takes the JSON value. -/
def untagged? (texts : TextReaders) : Json → Option Value
  | .array es =>
    Kind.declared.findSome? fun kind => kind.read? texts (untaggedAll? texts es) (.array es)
  | j => Kind.declared.findSome? fun kind => kind.read? texts none j

def untaggedAll? (texts : TextReaders) : List Json → Option (List Value)
  | [] => some []
  | e :: es => do return (← untagged? texts e) :: (← untaggedAll? texts es)

end

theorem untaggedAll?_eq_ofJsons {texts : TextReaders} {es : List Json}
    (h : ∀ e ∈ es, untagged? texts e = some (ofJson e)) :
    untaggedAll? texts es = some (ofJsons es) := by
  induction es with
  | nil => rfl
  | cons e es ih =>
    obtain ⟨he, hes⟩ := List.forall_mem_cons.mp h
    simp [untaggedAll?, ofJsons, he, ih hes]

/-- Strings come before the kinds that have a text and lists before bytes, so that these are never
    read, and embedded JSON is left with the objects. -/
theorem untagged?_eq_ofJson (texts : TextReaders) (j : Json) :
    untagged? texts j = some (ofJson j) := by
  induction j using Json.nested_induction with
  | null => rfl
  | bool b => rfl
  | integer i =>
    rw [ofJson]
    cases hi : int64OfInt? i with
    | some n => simp [untagged?, Kind.declared, Kind.read?, hi]
    | none => simp [untagged?, Kind.declared, Kind.read?, hi]
  | number x => rfl
  | string s => rfl
  | array es ih =>
    simp [untagged?, Kind.declared, Kind.read?, texts.read?_array, untaggedAll?_eq_ofJsons ih,
      ofJson]
  | object ms ih =>
    simp [untagged?, Kind.declared, Kind.read?, texts.read?_object, ofJson]

/-! ## Canonical values -/

mutual

/-- The value that embedded JSON amounts to by its shape. -/
def ofEmbedded : Json → Value
  | .null => null
  | .bool b => bool b
  | .integer i =>
    if -0x8000000000000000 ≤ i ∧ i < 0x8000000000000000 then int (.ofInt i) else float (.ofInt i)
  | .number x => float x
  | .string s => string s
  | .array es => list (ofEmbeddedElements es)
  | .object ms => json (.object ms)

def ofEmbeddedElements : List Json → List Value
  | [] => []
  | e :: es => ofEmbedded e :: ofEmbeddedElements es

end

mutual

/-- The canonical form of a value. -/
def canon : Value → Value
  | null => null
  | bool b => bool b
  | int i => int i
  | float x => if x.isFinite then float x else null
  | string s => string s
  | uuid u => string u.text
  | decimal d => string d.text
  | dateTime m => string m.storedText
  | date d => string d.text
  | time t => string t.text
  | list vs => list (canons vs)
  | bytes bs => list (bs.map fun b => int (.ofInt b.toNat))
  | json j => ofEmbedded j

def canons : List Value → List Value
  | [] => []
  | v :: vs => v.canon :: canons vs

end

mutual

/-- Whether all embedded JSON is a document, as JSON values are built: their numbers are integers of
    64 bits or finite doubles, and their objects hold each key once and in order. -/
def Storable : Value → Prop
  | list vs => AllStorable vs
  | json j => j.IsDocument
  | _ => True

def AllStorable : List Value → Prop
  | [] => True
  | v :: vs => v.Storable ∧ AllStorable vs

end

/-- A property of all values, shown of lists from their elements. -/
@[elab_as_elim]
theorem nested_induction {motive : Value → Prop} (null : motive .null)
    (bool : ∀ b, motive (.bool b)) (int : ∀ i, motive (.int i)) (float : ∀ x, motive (.float x))
    (string : ∀ s, motive (.string s)) (uuid : ∀ u, motive (.uuid u))
    (decimal : ∀ d, motive (.decimal d)) (dateTime : ∀ m, motive (.dateTime m))
    (date : ∀ d, motive (.date d)) (time : ∀ t, motive (.time t))
    (list : ∀ vs : List Value, (∀ v ∈ vs, motive v) → motive (.list vs))
    (bytes : ∀ bs, motive (.bytes bs)) (json : ∀ j, motive (.json j)) (v : Value) : motive v :=
  @Value.rec motive (fun vs => ∀ v ∈ vs, motive v)
    null bool int float string uuid decimal dateTime date time list bytes json
    (List.forall_mem_nil _) (fun _ _ hv hvs => List.forall_mem_cons.mpr ⟨hv, hvs⟩) v

theorem ofJson_integer (i : Int) :
    ofJson (.integer i) =
      if -0x8000000000000000 ≤ i ∧ i < 0x8000000000000000 then int (.ofInt i)
      else float (.ofInt i) := by
  rw [ofJson, int64OfInt?_eq]
  by_cases hi : -0x8000000000000000 ≤ i ∧ i < 0x8000000000000000
  · simp only [if_pos hi]
  · simp only [if_neg hi]

/-! The functions on lists apply those on values to each element. -/

theorem toJsons_eq_map (vs : List Value) : toJsons vs = vs.map toJson := by
  induction vs with
  | nil => rfl
  | cons v vs ih => rw [toJsons, ih, List.map_cons]

theorem ofJsons_eq_map (js : List Json) : ofJsons js = js.map ofJson := by
  induction js with
  | nil => rfl
  | cons j js ih => rw [ofJsons, ih, List.map_cons]

theorem ofEmbeddedElements_eq_map (es : List Json) : ofEmbeddedElements es = es.map ofEmbedded := by
  induction es with
  | nil => rfl
  | cons e es ih => rw [ofEmbeddedElements, ih, List.map_cons]

theorem canons_eq_map (vs : List Value) : canons vs = vs.map canon := by
  induction vs with
  | nil => rfl
  | cons v vs ih => rw [canons, ih, List.map_cons]

theorem allStorable_iff {vs : List Value} : AllStorable vs ↔ ∀ v ∈ vs, v.Storable := by
  induction vs with
  | nil => simp [AllStorable]
  | cons v vs ih => simp [AllStorable, ih]

/-- Embedded JSON is read as what it amounts to by its shape. -/
theorem ofJson_eq_ofEmbedded (j : Json) : ofJson j = ofEmbedded j := by
  induction j using Json.nested_induction with
  | null | bool | number | string | object => simp [ofJson, ofEmbedded]
  | integer i => rw [ofJson_integer, ofEmbedded]
  | array es ih =>
    rw [ofJson, ofEmbedded, ofJsons_eq_map, ofEmbeddedElements_eq_map, List.map_congr_left ih]

/-- What is stored of a value is read as its canonical form. -/
theorem ofJson_toJson (v : Value) : ofJson v.toJson = v.canon := by
  induction v using nested_induction with
  | null | bool | string | uuid | decimal | dateTime | date | time =>
    simp [toJson, ofJson, canon]
  | int i => simp [toJson, ofJson, canon, int64OfInt?_toInt]
  | float x =>
    rw [toJson, canon]
    split <;> rw [ofJson]
  | list vs ih =>
    rw [toJson, ofJson, canon, toJsons_eq_map, ofJsons_eq_map, canons_eq_map, List.map_map]
    exact congrArg list (List.map_congr_left ih)
  | bytes bs =>
    rw [toJson, ofJson, canon, ofJsons_eq_map, List.map_map]
    refine congrArg list (List.map_congr_left fun b _ => ?_)
    have hb : b.toNat < 256 := b.toNat_lt
    exact (ofJson_integer _).trans (if_pos (by omega))
  | json j => rw [toJson, canon, ofJson_eq_ofEmbedded]

/-- Embedded JSON apart, everything that is stored is a document. -/
theorem isDocument_toJson (v : Value) (h : v.Storable) : v.toJson.IsDocument := by
  induction v using nested_induction with
  | null | bool | string | uuid | decimal | dateTime | date | time =>
    simp [toJson]
  | int i =>
    have hi := isSome_int64OfInt?.mp (Option.isSome_of_eq_some (int64OfInt?_toInt i))
    exact Json.isDocument_integer.mpr (by omega)
  | float x =>
    rw [toJson]
    split
    · next hx => exact Json.isDocument_number.mpr hx
    · exact Json.isDocument_null
  | list vs ih =>
    rw [Storable, allStorable_iff] at h
    rw [toJson, toJsons_eq_map]
    refine Json.isDocument_array.mpr fun j hj => ?_
    obtain ⟨v, hv, rfl⟩ := List.mem_map.mp hj
    exact ih v hv (h v hv)
  | bytes bs =>
    refine Json.isDocument_array.mpr fun j hj => ?_
    obtain ⟨b, -, rfl⟩ := List.mem_map.mp hj
    have hb : b.toNat < 256 := b.toNat_lt
    exact Json.isDocument_integer.mpr (by omega)
  | json j => exact h

/-- Every value that is read is canonical. -/
theorem canon_ofJson (j : Json) (h : j.IsDocument) : (ofJson j).canon = ofJson j := by
  induction j using Json.nested_induction with
  | null | bool | string => simp [ofJson, canon]
  | integer i =>
    have hi := Json.isDocument_integer.mp h
    rw [ofJson_integer]
    split
    · rw [canon]
    · rw [canon, if_pos (Binary64.isFinite_ofInt (by omega))]
  | number x => rw [ofJson, canon, if_pos (Json.isDocument_number.mp h)]
  | array es ih =>
    have hes := Json.isDocument_array.mp h
    rw [ofJson, canon, ofJsons_eq_map, canons_eq_map, List.map_map]
    exact congrArg list (List.map_congr_left fun e he => ih e he (hes e he))
  | object ms ih => rw [ofJson, canon, ofEmbedded]

theorem canon_canon (v : Value) (h : v.Storable) : v.canon.canon = v.canon := by
  rw [← ofJson_toJson v]
  exact canon_ofJson v.toJson (isDocument_toJson v h)

/-! ## Values and their texts -/

/-- Reading a text takes each JSON value for the first kind that accepts it. So a value is read from
    its own text as its canonical form, provided that it is nested no deeper than is allowed and
    that each float in it is read back; the canonical form has itself as its canonical form, and so
    has every value that is read from any text. -/
theorem reads_stored_as_canon (texts : TextReaders) :
    (∀ text, parse? text = (Json.parse? text).bind (untagged? texts)) ∧
    (∀ v : Value, v.Storable → (∀ x, Json.number x ∈ v.toJson.parts → Json.ReadsBack x) →
      v.toJson.depth ≤ Json.maxDepth → parse? v.toJson.text = some v.canon) ∧
    (∀ v : Value, v.Storable → v.canon.canon = v.canon) ∧
    ∀ text v, parse? text = some v → v.canon = v := by
  refine ⟨fun text => ?_, fun v hv hx hdepth => ?_, canon_canon, fun text v h => ?_⟩
  · rw [parse?, funext (untagged?_eq_ofJson texts)]
    exact Option.map_eq_bind
  · rw [parse?, Json.parse?_text (isDocument_toJson v hv) hx hdepth, Option.map_some, ofJson_toJson]
  · obtain ⟨j, hj, rfl⟩ := Option.map_eq_some_iff.mp h
    exact canon_ofJson j (Json.isDocument_of_parse? hj)

/-- Readers that take the texts of identifiers only. -/
def identifierReaders : TextReaders where
  read? := fun
    | .uuid, .string s => (Uuid.ofText? s).map .uuid
    | _, _ => none
  read?_array kind es := by cases kind <;> rfl
  read?_object kind ms := by cases kind <;> rfl

/-- The float `1.5`. -/
def oneAndHalf : Binary64 := ⟨0x3FF8000000000000⟩

/-- A list of kinds that are stored alike: a float, one that is no number, bytes and embedded JSON
    with an integer beyond 64 bits with sign and with an object. -/
def mixedList : Value :=
  .list [.float oneAndHalf, .float .nan, .bytes [255],
    .json (.array [.integer 9223372036854775808, .object [("k", .null)]])]

theorem readsBack_oneAndHalf : Json.ReadsBack oneAndHalf := by
  have hnumber : Json.number? (Json.numberChars oneAndHalf) =
      some (⟨false, ['1'], ['5'], none⟩, []) := by
    decide +kernel
  have hmagnitude : Json.NumberText.magnitude? ⟨false, ['1'], ['5'], none⟩ = some oneAndHalf := by
    decide +kernel
  refine Json.readsBack_of_number? hnumber ?_
  show (Json.NumberText.magnitude? ⟨false, ['1'], ['5'], none⟩).map _ = _
  rw [hmagnitude]
  rfl

theorem reads_stored_as_canon_mixedList :
    mixedList.Storable ∧ (∀ x, Json.number x ∈ mixedList.toJson.parts → Json.ReadsBack x) ∧
      mixedList.toJson.depth ≤ Json.maxDepth ∧
      (Json.parse? mixedList.toJson.text).bind (untagged? identifierReaders) =
        some (.list [.float oneAndHalf, .null, .list [.int 255],
          .list [.float (.ofInt 9223372036854775808), .json (.object [("k", .null)])]]) := by
  have hstorable : mixedList.Storable := by
    simp [mixedList, Storable, AllStorable, Json.Sorted]
  have hreads : ∀ x, Json.number x ∈ mixedList.toJson.parts → Json.ReadsBack x := by
    intro x hx
    have hfinite : oneAndHalf.isFinite = true := by decide
    have hnan : Binary64.nan.isFinite = false := by decide
    simp [mixedList, toJson, toJsons, hfinite, hnan, Json.parts, Json.elementParts,
      Json.memberParts] at hx
    exact hx ▸ readsBack_oneAndHalf
  have hdepth : mixedList.toJson.depth ≤ Json.maxDepth := by decide
  obtain ⟨huntagged, hparse, -, -⟩ := reads_stored_as_canon identifierReaders
  refine ⟨hstorable, hreads, hdepth, ?_⟩
  rw [← huntagged, hparse mixedList hstorable hreads hdepth]
  rfl

end SchemaFilter.Value
