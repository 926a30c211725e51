import Mathlib.Data.List.TakeDrop
import Mathlib.Data.List.TakeWhile
import SchemaFilter.Json.Reader

/-!
# Numbers and strings inside a text

Where a number ends is not marked in a JSON text, so reading one looks at the character that
follows. Inside a larger text that is nothing, a comma or a closing bracket, none of which goes on
with a number: what is read of a text alone is read of it there too (`Local`).

Main results:

* `Json.local_number?`: numbers are read alike alone and inside a text;
* `Json.number?_integerChars`, `Json.NumberText.value?_ofInt`: an integer that is written is read
  back;
* `Json.stringUnits?_flatMap`, `Json.decodeUnits?_map`: so is a string.
-/

namespace SchemaFilter.Json

/-! ## Digits -/

/-- What may follow a value: nothing, or a character that is no part of any. -/
def EndsValue (cs : List Char) : Prop := ∀ c ∈ cs.head?, c = ',' ∨ c = ']' ∨ c = '}'

theorem endsValue_nil : EndsValue [] := by simp [EndsValue]

theorem not_isDigit_of_endsValue {cs : List Char} (h : EndsValue cs) :
    ∀ c ∈ cs.head?, c.isDigit = false := by
  intro c hc
  obtain rfl | rfl | rfl := h c hc <;> decide

/-- The digits at the start are all there are. -/
theorem spanDigits_eq_iff {cs digits rest : List Char} :
    spanDigits cs = (digits, rest) ↔
      cs = digits ++ rest ∧ (∀ d ∈ digits, d.isDigit = true) ∧
        ∀ c ∈ rest.head?, c.isDigit = false := by
  rw [spanDigits, List.span_eq_takeWhile_dropWhile, Prod.mk.injEq]
  constructor
  · rintro ⟨rfl, rfl⟩
    refine ⟨(List.takeWhile_append_dropWhile).symm, fun d hd => List.mem_takeWhile_imp hd, ?_⟩
    intro c hc
    have hhead := List.head?_dropWhile_not Char.isDigit cs
    rw [Option.mem_def.mp hc] at hhead
    simpa using hhead
  · rintro ⟨rfl, hdigits, hrest⟩
    rw [List.takeWhile_append_of_pos hdigits, List.dropWhile_append_of_pos hdigits]
    cases rest with
    | nil => simp
    | cons c rest => simp [hrest c rfl]

/-! ## Readers that stop at the end of a value -/

/-- Whether what is read of a text alone is read of it inside a text as well. -/
def Local {α : Type} (read? : List Char → Option (α × List Char)) : Prop :=
  ∀ cs a rest more, read? cs = some (a, rest) → (rest = [] → EndsValue more) →
    read? (cs ++ more) = some (a, rest ++ more)

theorem spanDigits_append {cs digits rest more : List Char}
    (h : spanDigits cs = (digits, rest)) (hmore : rest = [] → EndsValue more) :
    spanDigits (cs ++ more) = (digits, rest ++ more) := by
  obtain ⟨rfl, hdigits, hrest⟩ := spanDigits_eq_iff.mp h
  refine spanDigits_eq_iff.mpr ⟨List.append_assoc _ _ _, hdigits, ?_⟩
  cases rest with
  | nil => exact not_isDigit_of_endsValue (hmore rfl)
  | cons c rest => exact hrest

/-- The digits before a point: some, with no zero in front of others. -/
theorem wholeDigits?_eq_some_iff {cs digits rest : List Char} :
    wholeDigits? cs = some (digits, rest) ↔
      spanDigits cs = (digits, rest) ∧ digits ≠ [] ∧
        (digits.head? = some '0' → digits = ['0']) := by
  unfold wholeDigits?
  rcases spanDigits cs with ⟨_ | ⟨d, ds⟩, tail⟩
  · refine iff_of_false (by simp) ?_
    rintro ⟨heq, hne, -⟩
    exact hne (Prod.mk.inj heq).1.symm
  obtain rfl | hd := eq_or_ne d '0'
  · cases ds with
    | nil => simp +contextual [eq_comm]
    | cons d' ds =>
      refine iff_of_false (by simp) ?_
      rintro ⟨heq, -, hzero⟩
      obtain ⟨rfl, -⟩ := Prod.mk.inj heq
      exact absurd (hzero rfl) (by simp)
  · simp only [hd, List.cons.injEq, false_and, imp_self, implies_true, Option.some.injEq,
      Prod.mk.injEq, ne_eq]
    refine ⟨fun heq => ⟨heq, ?_⟩, And.left⟩
    obtain ⟨rfl, -⟩ := heq
    exact ⟨List.cons_ne_nil _ _, fun hhead => absurd (Option.some.inj hhead) hd⟩

theorem local_wholeDigits? : Local wholeDigits? := by
  intro cs digits rest more h hmore
  obtain ⟨hspan, hdigits⟩ := wholeDigits?_eq_some_iff.mp h
  exact wholeDigits?_eq_some_iff.mpr ⟨spanDigits_append hspan hmore, hdigits⟩

/-- One or more digits, and what `f` makes of them. -/
def digits? {α : Type} (f : List Char → α) (cs : List Char) : Option (α × List Char) :=
  match spanDigits cs with
  | ([], _) => none
  | (digits, rest) => some (f digits, rest)

theorem local_digits? {α : Type} (f : List Char → α) : Local (digits? f) := by
  intro cs a rest more h hmore
  unfold digits? at h ⊢
  rcases hspan : spanDigits cs with ⟨_ | ⟨d, ds⟩, tail⟩
  · simp [hspan] at h
  · simp only [hspan, Option.some.injEq, Prod.mk.injEq] at h
    obtain ⟨rfl, rfl⟩ := h
    simp [spanDigits_append hspan hmore]

theorem fractionDigits?_of_ne {c : Char} (hc : c ≠ '.') (cs : List Char) :
    fractionDigits? (c :: cs) = some ([], c :: cs) := by
  simp [fractionDigits?, hc]

theorem local_fractionDigits? : Local fractionDigits? := by
  intro cs digits rest more h hmore
  cases cs with
  | nil =>
    obtain ⟨rfl, rfl⟩ := Prod.mk.inj (Option.some.inj h)
    cases more with
    | nil => rfl
    | cons c more =>
      have hc := hmore rfl c rfl
      exact fractionDigits?_of_ne (by rintro rfl; simp at hc) more
  | cons c cs =>
    obtain rfl | hc := eq_or_ne c '.'
    · exact local_digits? id cs digits rest more h hmore
    · rw [fractionDigits?_of_ne hc] at h
      obtain ⟨rfl, rfl⟩ := Prod.mk.inj (Option.some.inj h)
      exact fractionDigits?_of_ne hc _

theorem exponentDigits?_of_ne {c : Char} (hminus : c ≠ '-') (hplus : c ≠ '+') (cs : List Char) :
    exponentDigits? (c :: cs) = digits? (fun digits => (false, digits)) (c :: cs) := by
  simp [exponentDigits?, hminus, hplus]
  rfl

theorem local_exponentDigits? : Local exponentDigits? := by
  intro cs e rest more h hmore
  cases cs with
  | nil => exact absurd h (by simp [exponentDigits?, spanDigits, List.span, List.span.loop])
  | cons c cs =>
    obtain rfl | hminus := eq_or_ne c '-'
    · exact local_digits? (fun digits => (true, digits)) cs e rest more h hmore
    obtain rfl | hplus := eq_or_ne c '+'
    · exact local_digits? (fun digits => (false, digits)) cs e rest more h hmore
    · rw [exponentDigits?_of_ne hminus hplus] at h
      rw [List.cons_append, exponentDigits?_of_ne hminus hplus]
      exact local_digits? (fun digits => (false, digits)) (c :: cs) e rest more h hmore

theorem exponent?_of_ne {c : Char} (hlower : c ≠ 'e') (hupper : c ≠ 'E') (cs : List Char) :
    exponent? (c :: cs) = some (none, c :: cs) := by
  simp [exponent?, hlower, hupper]

/-- What follows a value has no exponent. -/
theorem exponent?_of_endsValue {cs : List Char} (h : EndsValue cs) :
    exponent? cs = some (none, cs) := by
  cases cs with
  | nil => rfl
  | cons c cs =>
    have hc := h c rfl
    exact exponent?_of_ne (by rintro rfl; simp at hc) (by rintro rfl; simp at hc) cs

theorem local_exponent? : Local exponent? := by
  intro cs e rest more h hmore
  cases cs with
  | nil =>
    obtain ⟨rfl, rfl⟩ := Prod.mk.inj (Option.some.inj h)
    exact exponent?_of_endsValue (hmore rfl)
  | cons c cs =>
    by_cases hc : c = 'e' ∨ c = 'E'
    · have hexponent (cs : List Char) : exponent? (c :: cs) =
          (exponentDigits? cs).map fun found => (some found.1, found.2) := by
        obtain rfl | rfl := hc <;> rfl
      rw [hexponent] at h
      obtain ⟨⟨written, tail⟩, hwritten, heq⟩ := Option.map_eq_some_iff.mp h
      obtain ⟨rfl, rfl⟩ := Prod.mk.inj heq
      rw [List.cons_append, hexponent, local_exponentDigits? cs written tail more hwritten hmore]
      rfl
    · obtain ⟨hlower, hupper⟩ := not_or.mp hc
      rw [exponent?_of_ne hlower hupper] at h
      obtain ⟨rfl, rfl⟩ := Prod.mk.inj (Option.some.inj h)
      exact exponent?_of_ne hlower hupper _

/-- The number after its sign. -/
def unsigned? (negative : Bool) (cs : List Char) : Option (NumberText × List Char) := do
  let (whole, cs) ← wholeDigits? cs
  let (fraction, cs) ← fractionDigits? cs
  let (exponent, cs) ← exponent? cs
  return (⟨negative, whole, fraction, exponent⟩, cs)

theorem number?_minus (cs : List Char) : number? ('-' :: cs) = unsigned? true cs := rfl

theorem number?_of_ne {c : Char} (hc : c ≠ '-') (cs : List Char) :
    number? (c :: cs) = unsigned? false (c :: cs) := by
  simp [number?, unsigned?, hc]

theorem local_unsigned? (negative : Bool) : Local (unsigned? negative) := by
  intro cs n rest more h hmore
  obtain ⟨⟨whole, cs₁⟩, hwhole, h⟩ := Option.bind_eq_some_iff.mp h
  obtain ⟨⟨fraction, cs₂⟩, hfraction, h⟩ := Option.bind_eq_some_iff.mp h
  obtain ⟨⟨exponent, cs₃⟩, hexponent, h⟩ := Option.bind_eq_some_iff.mp h
  obtain ⟨rfl, rfl⟩ := Prod.mk.inj (Option.some.inj h)
  -- a reader that is left with nothing leaves nothing, so `more` follows each of them in turn
  have hexponent' : cs₂ = [] → EndsValue more := by
    rintro rfl
    exact hmore (Prod.mk.inj (Option.some.inj hexponent)).2.symm
  have hfraction' : cs₁ = [] → EndsValue more := by
    rintro rfl
    exact hexponent' (Prod.mk.inj (Option.some.inj hfraction)).2.symm
  simp only [unsigned?, local_wholeDigits? cs whole cs₁ more hwhole hfraction',
    local_fractionDigits? cs₁ fraction cs₂ more hfraction hexponent',
    local_exponent? cs₂ exponent cs₃ more hexponent hmore, Option.bind_eq_bind, Option.bind_some]
  rfl

theorem local_number? : Local number? := by
  intro cs n rest more h hmore
  cases cs with
  | nil => exact absurd h (by simp [number?, wholeDigits?, spanDigits, List.span, List.span.loop])
  | cons c cs =>
    obtain rfl | hc := eq_or_ne c '-'
    · exact local_unsigned? true cs n rest more h hmore
    · rw [number?_of_ne hc] at h
      rw [List.cons_append, number?_of_ne hc]
      exact local_unsigned? false (c :: cs) n rest more h hmore

/-- A number starts with a sign or a digit. -/
theorem head_of_number? {cs rest : List Char} {n : NumberText} (h : number? cs = some (n, rest)) :
    ∃ c tail, cs = c :: tail ∧ (c = '-' ∨ c.isDigit = true) := by
  cases cs with
  | nil => exact absurd h (by simp [number?, wholeDigits?, spanDigits, List.span, List.span.loop])
  | cons c tail =>
    refine ⟨c, tail, rfl, ?_⟩
    obtain rfl | hc := eq_or_ne c '-'
    · exact Or.inl rfl
    rw [number?_of_ne hc] at h
    obtain ⟨⟨whole, cs⟩, hwhole, -⟩ := Option.bind_eq_some_iff.mp h
    obtain ⟨hspan, hne, -⟩ := wholeDigits?_eq_some_iff.mp hwhole
    obtain ⟨heq, hdigits, -⟩ := spanDigits_eq_iff.mp hspan
    obtain ⟨d, ds, rfl⟩ := List.exists_cons_of_ne_nil hne
    obtain ⟨rfl, -⟩ := List.cons.inj heq
    exact Or.inr (hdigits c List.mem_cons_self)

/-! ## Integers -/

/-- A positive number is written without a zero in front. -/
theorem head?_toDigits_ne {n : Nat} (hn : 0 < n) : (Nat.toDigits 10 n).head? ≠ some '0' := by
  induction n using Nat.strongRecOn with
  | ind n ih =>
    obtain hlt | hge := Nat.lt_or_ge n 10
    · rw [Nat.toDigits_of_lt_base hlt]
      have hdigit : ∀ d < 10, 0 < d → Nat.digitChar d ≠ '0' := by decide
      exact fun h => hdigit n hlt hn (Option.some.inj h)
    · have hsome : (Nat.toDigits 10 (n / 10)).head?.isSome = true := by simp [Nat.toDigits_ne_nil]
      rw [Nat.toDigits_of_base_le (by decide) hge, List.head?_append, Option.or_of_isSome hsome]
      exact ih (n / 10) (by omega) (by omega)

theorem wholeDigits?_toDigits (n : Nat) :
    wholeDigits? (Nat.toDigits 10 n) = some (Nat.toDigits 10 n, []) := by
  refine wholeDigits?_eq_some_iff.mpr ⟨spanDigits_eq_iff.mpr ?_, Nat.toDigits_ne_nil, ?_⟩
  · exact ⟨(List.append_nil _).symm,
      fun d hd => Nat.isDigit_of_mem_toDigits (by decide) (by decide) hd, by simp⟩
  · intro hhead
    obtain rfl | hn := Nat.eq_zero_or_pos n
    · rfl
    · exact absurd hhead (head?_toDigits_ne hn)

theorem number?_integerChars (i : Int) :
    number? (integerChars i) = some (⟨decide (i < 0), Nat.toDigits 10 i.natAbs, [], none⟩, []) := by
  have hunsigned (negative : Bool) : unsigned? negative (Nat.toDigits 10 i.natAbs) =
      some (⟨negative, Nat.toDigits 10 i.natAbs, [], none⟩, []) := by
    rw [unsigned?, wholeDigits?_toDigits]
    rfl
  unfold integerChars
  split
  · next hneg => rw [number?_minus, hunsigned, decide_eq_true hneg]
  · next hneg =>
    obtain ⟨c, cs, hcs⟩ :=
      List.exists_cons_of_ne_nil (Nat.toDigits_ne_nil (n := i.natAbs) (b := 10))
    have hc : c.isDigit = true :=
      Nat.isDigit_of_mem_toDigits (by decide) (by decide) (hcs ▸ List.mem_cons_self)
    rw [decide_eq_false hneg, ← hunsigned false, hcs]
    exact number?_of_ne (by rintro rfl; exact absurd hc (by decide)) cs

theorem le_ofDigitChars (n : Nat) (cs : List Char) : n ≤ Nat.ofDigitChars 10 cs n := by
  induction cs generalizing n with
  | nil => exact Nat.le_refl n
  | cons c cs ih =>
    rw [Nat.ofDigitChars_cons]
    exact Nat.le_trans (by omega) (ih _)

/-- Digits that 64 bits can hold are all taken. -/
theorem absorb_of_le {n : Nat} {cs : List Char} (h : Nat.ofDigitChars 10 cs n ≤ maxWord) :
    absorb n cs = (Nat.ofDigitChars 10 cs n, []) := by
  induction cs generalizing n with
  | nil => rfl
  | cons c cs ih =>
    rw [Nat.ofDigitChars_cons, Nat.mul_comm] at h ⊢
    have hle := Nat.le_trans (le_ofDigitChars _ cs) h
    rw [absorb, if_neg (Nat.not_lt.mpr hle), ih h]

theorem absorb_toDigits {n : Nat} (hn : n ≤ maxWord) : absorb 0 (Nat.toDigits 10 n) = (n, []) := by
  rw [absorb_of_le (by rwa [Nat.ofDigitChars_ten_toDigits]), Nat.ofDigitChars_ten_toDigits]

theorem NumberText.value?_of_natural {n : Nat} (hn : n ≤ maxWord) :
    NumberText.value? ⟨false, Nat.toDigits 10 n, [], none⟩ = some (.integer n) := by
  simp [NumberText.value?, NumberText.isWhole, absorb_toDigits hn]

theorem NumberText.value?_of_negative {n : Nat} (hn : 0 < n)
    (hword : (int64OfInt? (-n)).isSome = true) :
    NumberText.value? ⟨true, Nat.toDigits 10 n, [], none⟩ = some (.integer (-n)) := by
  have hrange := isSome_int64OfInt?.mp hword
  have hmax : maxWord = 0xffffffffffffffff := by decide
  have habsorb := absorb_toDigits (show n ≤ maxWord by omega)
  simp [NumberText.value?, NumberText.isWhole, habsorb, hn, hword]

/-- An integer that fits 64 bits is read back from its digits. -/
theorem NumberText.value?_of_integer {i : Int}
    (hi : -0x8000000000000000 ≤ i ∧ i < 0x10000000000000000) :
    NumberText.value? ⟨decide (i < 0), Nat.toDigits 10 i.natAbs, [], none⟩ =
      some (.integer i) := by
  obtain hneg | hneg := Int.lt_or_le i 0
  · have hnat : -(i.natAbs : Int) = i := by omega
    have hsome : (int64OfInt? (-(i.natAbs : Int))).isSome = true :=
      isSome_int64OfInt?.mpr (by omega)
    rw [decide_eq_true hneg, value?_of_negative (by omega) hsome, hnat]
  · have hnat : (i.natAbs : Int) = i := by omega
    have hmax : maxWord = 0xffffffffffffffff := by decide
    rw [decide_eq_false (by omega), value?_of_natural (by omega), hnat]

/-! ## Strings -/

theorem hexNumber?_hexDigits : ∀ n < 0x20, hexNumber? (hexDigits 4 n) = some n := by decide

/-- An escaped code unit below the surrogates stands for itself. -/
theorem decodeUnits?_unit {n : Nat} (hn : n < 0xD800) (us : List StringUnit) :
    decodeUnits? (.unit n :: us) = (decodeUnits? us).map (Char.ofNat n :: ·) := by
  have hhigh : ¬ 0xD800 ≤ n := by omega
  have hlow : ¬ 0xDC00 ≤ n := by omega
  match us with
  | [] | .char _ :: _ => simp [decodeUnits?, hhigh]
  | .unit _ :: _ => simp [decodeUnits?, hhigh, hlow]

theorem stringUnits?_simpleEscape {c e : Char} (hc : c ≠ 'u') (he : simpleEscape? c = some e)
    (cs : List Char) :
    stringUnits? ('\\' :: c :: cs) =
      (stringUnits? cs).map fun (units, rest) => (.char e :: units, rest) := by
  rw [stringUnits?, he]
  · cases stringUnits? cs <;> rfl
  · exact fun _ _ _ _ _ hu => absurd hu hc

theorem stringUnits?_hexEscape {n : Nat} (hn : n < 0x20) (cs : List Char) :
    stringUnits? ('\\' :: 'u' :: hexDigits 4 n ++ cs) =
      (stringUnits? cs).map fun (units, rest) => (.unit n :: units, rest) := by
  obtain ⟨a, b, c, d, hdigits⟩ : ∃ a b c d, hexDigits 4 n = [a, b, c, d] := ⟨_, _, _, _, rfl⟩
  have hhex := hexNumber?_hexDigits n hn
  rw [hdigits] at hhex ⊢
  simp only [List.cons_append, List.nil_append, stringUnits?, hhex]
  cases stringUnits? cs <;> rfl

theorem stringUnits?_char {c : Char} (hquote : c ≠ '"') (hbackslash : c ≠ '\\')
    (hcontrol : ¬ c.toNat < 0x20) (cs : List Char) :
    stringUnits? (c :: cs) =
      (stringUnits? cs).map fun (units, rest) => (.char c :: units, rest) := by
  have hplain : ¬ (c.toNat < 0x20 ∨ c = '\\') := not_or.mpr ⟨hcontrol, hbackslash⟩
  rw [stringUnits?, if_neg hplain]
  · cases stringUnits? cs <;> rfl
  · exact hquote
  · exact fun _ _ _ _ _ hc => absurd hc hbackslash
  · exact fun _ _ hc => absurd hc hbackslash

/-- A character is read back from the way it is written inside a string. -/
theorem exists_unit_escapedChar (c : Char) :
    ∃ unit : StringUnit,
      (∀ cs, stringUnits? (escapedChar c ++ cs) =
        (stringUnits? cs).map fun (units, rest) => (unit :: units, rest)) ∧
      ∀ units, decodeUnits? (unit :: units) = (decodeUnits? units).map (c :: ·) := by
  unfold escapedChar
  split
  · exact ⟨_, stringUnits?_simpleEscape (by decide) rfl, fun units => rfl⟩
  · exact ⟨_, stringUnits?_simpleEscape (by decide) rfl, fun units => rfl⟩
  · exact ⟨_, stringUnits?_simpleEscape (by decide) rfl, fun units => rfl⟩
  · exact ⟨_, stringUnits?_simpleEscape (by decide) rfl, fun units => rfl⟩
  · exact ⟨_, stringUnits?_simpleEscape (by decide) rfl, fun units => rfl⟩
  · exact ⟨_, stringUnits?_simpleEscape (by decide) rfl, fun units => rfl⟩
  · exact ⟨_, stringUnits?_simpleEscape (by decide) rfl, fun units => rfl⟩
  · next hquote hbackslash _ _ _ _ _ =>
    split
    · next hcontrol =>
      refine ⟨_, stringUnits?_hexEscape hcontrol, fun units => ?_⟩
      rw [decodeUnits?_unit (by omega), Char.ofNat_toNat]
    · next hcontrol =>
      exact ⟨_, stringUnits?_char hquote hbackslash hcontrol, fun units => rfl⟩

/-- So is a whole string. -/
theorem exists_units_escaped (s : List Char) :
    ∃ units, (∀ rest, stringUnits? (s.flatMap escapedChar ++ '"' :: rest) = some (units, rest)) ∧
      decodeUnits? units = some s := by
  induction s with
  | nil => exact ⟨[], fun rest => rfl, rfl⟩
  | cons c s ih =>
    obtain ⟨units, hread, hdecode⟩ := ih
    obtain ⟨unit, hread', hdecode'⟩ := exists_unit_escapedChar c
    refine ⟨unit :: units, fun rest => ?_, by rw [hdecode', hdecode]; rfl⟩
    rw [List.flatMap_cons, List.append_assoc, hread', hread]
    rfl

end SchemaFilter.Json
