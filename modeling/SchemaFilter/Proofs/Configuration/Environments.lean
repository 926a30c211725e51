import Mathlib.Data.List.Induction
import Mathlib.Tactic.SplitIfs
import SchemaFilter.Configuration.Basic
import SchemaFilter.Proofs.NameTable

/-!
# Environments one after the other

An environment leaves the configuration when it is applied, so that its name does nothing when it
comes again: what counts in a list of names is the order of their first occurrence. Each setting is
carried through such a list alone. It ends at what the last of these names sets it to, or stays if
none sets it.

Main definitions and results:

* `Setting`: the four settings, each with its values;
* `Configuration.value_withEnvironment`, `Configuration.environments_withEnvironment`: what one
  environment changes;
* `Configuration.lastOverride?`: the last value that some names set a setting to;
* `Configuration.value_withEnvironments`: a setting after many environments;
* `Configuration.settings_after_environments`: settings and environments after any names.
-/

namespace SchemaFilter

/-! ## Settings -/

/-- The settings of a configuration. -/
inductive Setting where
  | path
  | errorMode
  | logLevel
  | logFormat
  deriving DecidableEq, Repr

/-- The values that a setting can have. -/
def Setting.Value : Setting → Type
  | path => String
  | errorMode => ErrorMode
  | logLevel => String
  | logFormat => LogFormat

/-- The value that an environment sets a setting to, in the section of the setting. -/
def Environment.value? (e : Environment) : (s : Setting) → Option s.Value
  | .path => e.schema.bind (·.path)
  | .errorMode => e.compile.bind (·.errorMode)
  | .logLevel => e.debug.bind (·.logLevel)
  | .logFormat => e.debug.bind (·.logFormat)

namespace Configuration

/-- The value of a setting. -/
def value (c : Configuration) : (s : Setting) → s.Value
  | .path => c.path
  | .errorMode => c.errorMode
  | .logLevel => c.logLevel
  | .logFormat => c.logFormat

/-- The value that the environment of a name sets a setting to. The name of no environment sets
    nothing. -/
def override? (c : Configuration) (s : Setting) (name : String) : Option s.Value :=
  (c.environments.find? name).bind (·.value? s)

/-! ## One environment -/

/-- An environment sets a setting, or leaves it as it was. -/
theorem value_withEnvironment (c : Configuration) (name : String) (s : Setting) :
    (c.withEnvironment name).value s = (c.override? s name).getD (c.value s) := by
  rw [withEnvironment, override?]
  cases c.environments.find? name with
  | none => rfl
  | some e => cases s <;> rfl

theorem environments_withEnvironment (c : Configuration) (name : String) :
    (c.withEnvironment name).environments = c.environments.erase name := by
  rw [withEnvironment]
  cases h : c.environments.find? name with
  | none => exact (NameTable.erase_of_find?_eq_none h).symm
  | some e => rfl

/-! ## Many environments -/

/-- Applies the environments of some names one after the other. -/
def withEnvironments (c : Configuration) (names : List String) : Configuration :=
  names.foldl withEnvironment c

theorem withEnvironments_concat (c : Configuration) (names : List String) (name : String) :
    c.withEnvironments (names ++ [name]) = (c.withEnvironments names).withEnvironment name := by
  rw [withEnvironments, List.foldl_append]
  rfl

theorem environments_withEnvironments (c : Configuration) (names : List String) :
    (c.withEnvironments names).environments = names.foldl NameTable.erase c.environments :=
  (List.foldl_hom environments fun c name => (environments_withEnvironment c name).symm).symm

/-- The names that were applied set nothing any more, and the others what they did. -/
theorem override?_withEnvironments (c : Configuration) (names : List String) (s : Setting)
    (name : String) :
    (c.withEnvironments names).override? s name =
      if name ∈ names then none else c.override? s name := by
  rw [override?, environments_withEnvironments, NameTable.find?_foldl_erase]
  split_ifs with hname
  · rfl
  · rfl

/-- The value that the last of some names sets a setting to, in the order of their first
    occurrence. -/
def lastOverride? (c : Configuration) (s : Setting) (names : List String) : Option s.Value :=
  names.eraseDups.reverse.findSome? (c.override? s)

section LastOverride

variable {c : Configuration} {s : Setting} {names : List String}

/-- A further name comes last, unless it is there already. -/
theorem lastOverride?_concat (c : Configuration) (s : Setting) (names : List String)
    (name : String) :
    c.lastOverride? s (names ++ [name]) =
      if name ∈ names then c.lastOverride? s names
      else (c.override? s name).or (c.lastOverride? s names) := by
  rw [lastOverride?, eraseDups_concat]
  split_ifs with hname
  · rfl
  · rw [List.reverse_append, List.reverse_singleton, List.singleton_append, List.findSome?_cons,
      ← lastOverride?]
    cases c.override? s name with
    | none => rfl
    | some v => rfl

theorem lastOverride?_eq_some_iff {v : s.Value} :
    c.lastOverride? s names = some v ↔
      ∃ earlier name later, names.eraseDups = earlier ++ name :: later ∧
        c.override? s name = some v ∧ ∀ other ∈ later, c.override? s other = none := by
  rw [lastOverride?, List.findSome?_eq_some_iff]
  -- the search goes from the end, so that what comes before a name in it comes later in the list
  constructor
  · rintro ⟨later, name, earlier, hnames, hv, hlater⟩
    refine ⟨earlier.reverse, name, later.reverse, ?_, hv, ?_⟩
    · simpa using List.reverse_eq_append_iff.mp hnames
    · intro other hother
      exact hlater other (List.mem_reverse.mp hother)
  · rintro ⟨earlier, name, later, hnames, hv, hlater⟩
    refine ⟨later.reverse, name, earlier.reverse, ?_, hv, ?_⟩
    · rw [List.reverse_eq_append_iff, hnames]
      simp
    · intro other hother
      exact hlater other (List.mem_reverse.mp hother)

theorem lastOverride?_eq_none_iff :
    c.lastOverride? s names = none ↔ ∀ name ∈ names, c.override? s name = none := by
  rw [lastOverride?, List.findSome?_eq_none_iff]
  simp only [List.mem_reverse, List.mem_eraseDups]

end LastOverride

/-- After many environments a setting has the last value that they set it to, or the one that it
    had. -/
theorem value_withEnvironments (c : Configuration) (names : List String) (s : Setting) :
    (c.withEnvironments names).value s = (c.lastOverride? s names).getD (c.value s) := by
  -- a name is added at the end: the environments that are left there tell whether it is new
  induction names using List.reverseRecOn with
  | nil => rfl
  | append_singleton names name ih =>
    rw [withEnvironments_concat, value_withEnvironment, override?_withEnvironments, ih,
      lastOverride?_concat]
    split_ifs with hname
    · rfl
    · rw [Option.getD_or]

/-- **Environments one after the other.** Whatever names are applied, unknown and repeated ones
    included, each setting has a value exactly if the last name that sets it in the original
    configuration, in the order of first occurrence, sets it to this value, or no name sets it and
    this is its original value. The environments that are left are the original ones whose names
    were not applied, as they were. -/
theorem settings_after_environments (c : Configuration) (names : List String) :
    (∀ (s : Setting) (v : s.Value),
      (c.withEnvironments names).value s = v ↔
        (∃ earlier name later, names.eraseDups = earlier ++ name :: later ∧
          c.override? s name = some v ∧ ∀ other ∈ later, c.override? s other = none) ∨
        (∀ name ∈ names, c.override? s name = none) ∧ c.value s = v) ∧
      (c.withEnvironments names).environments.items =
        c.environments.items.filter (·.name ∉ names) := by
  refine ⟨?_, ?_⟩
  · intro s v
    rw [value_withEnvironments, ← lastOverride?_eq_some_iff, ← lastOverride?_eq_none_iff]
    cases c.lastOverride? s names with
    | none => simp
    | some w => simp
  · rw [environments_withEnvironments, NameTable.items_foldl_erase]
    rfl

/-- The environment of tests, which sets all but the format of logs. -/
def testEnvironment : Environment :=
  ⟨"test", some ⟨some "test.criters"⟩, some ⟨some .aggregate⟩, some ⟨some "info", none⟩⟩

/-- The environment at home, which is about logs alone. -/
def homeEnvironment : Environment := ⟨"home", none, none, some ⟨some "debug", some .pretty⟩⟩

/-- The environment of the site, with two sections that set nothing. -/
def siteEnvironment : Environment :=
  ⟨"site", some ⟨some "site.criters"⟩, some ⟨none⟩, some ⟨none, none⟩⟩

def shopConfiguration : Configuration where
  environments := NameTable.empty.extend [testEnvironment, siteEnvironment, homeEnvironment]

/-- The tests come first, and the second time they do nothing: where the environment at home sets a
    setting, this is the last to do so. -/
theorem settings_of_shopConfiguration :
    let c := shopConfiguration.withEnvironments ["test", "home", "nowhere", "test"]
    c.path = "test.criters" ∧ c.errorMode = .aggregate ∧ c.logLevel = "debug" ∧
      c.logFormat = .pretty ∧ c.environments.items = [siteEnvironment] := by
  obtain ⟨hsettings, henvironments⟩ :=
    settings_after_environments shopConfiguration ["test", "home", "nowhere", "test"]
  have hnames : ["test", "home", "nowhere", "test"].eraseDups = ["test", "home", "nowhere"] := by
    decide
  refine ⟨?path, ?errorMode, ?logLevel, ?logFormat, henvironments.trans (by decide)⟩
  case path =>
    exact (hsettings .path "test.criters").mpr (.inl ⟨[], "test", ["home", "nowhere"], hnames, rfl,
      List.forall_mem_cons.mpr ⟨rfl, List.forall_mem_singleton.mpr rfl⟩⟩)
  case errorMode =>
    exact (hsettings .errorMode .aggregate).mpr (.inl ⟨[], "test", ["home", "nowhere"], hnames, rfl,
      List.forall_mem_cons.mpr ⟨rfl, List.forall_mem_singleton.mpr rfl⟩⟩)
  case logLevel =>
    exact (hsettings .logLevel "debug").mpr (.inl ⟨["test"], "home", ["nowhere"], hnames, rfl,
      List.forall_mem_singleton.mpr rfl⟩)
  case logFormat =>
    exact (hsettings .logFormat .pretty).mpr (.inl ⟨["test"], "home", ["nowhere"], hnames, rfl,
      List.forall_mem_singleton.mpr rfl⟩)

/-- In the other order the tests are the last to set what they set, and a section that sets nothing
    leaves the rest. -/
example :
    let c := ["home", "test", "site", "home"].foldl withEnvironment shopConfiguration
    (c.path, c.errorMode, c.logLevel, c.logFormat) =
      ("site.criters", .aggregate, "info", .pretty) := rfl

end Configuration

end SchemaFilter
