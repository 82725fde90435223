import Mathlib
import ObjectSystem.Proofs.Ancestry
import ObjectSystem.Proofs.Numbers

/-!
# Consistent declarations

What a declaration may say depends on its tag: strings and flags take no bounds, numbers take bounds
and a default that are numbers of their type and in order, a class or an interface takes neither
bounds nor a default, and an enumeration takes one of its members. `Property.Consistent` says this
for a declaration together with the kind that it is completed to, and a declaration can be completed
exactly if it is consistent (`Property.resolve_eq_ok`).
-/

namespace ObjectSystem

variable {β : Type}

/-! ## What a declaration says -/

/-- Neither bound is given. -/
def PropertyOptions.Unbounded (options : PropertyOptions) : Prop :=
  options.min = none ∧ options.max = none

/-- What a setting comes to: the value that is given denotes it, or else it is what is filled in. -/
def Setting {α : Type} (denotes : Value → α → Prop) (filled : α → Prop) (given : Option Value)
    (a : α) : Prop :=
  match given with
  | none => filled a
  | some v => denotes v a

/-- Bounds and a default that are numbers of a type and in order. The minimum is 0, the maximum the
largest number of the type and the default the minimum where they are not given. -/
structure PropertyOptions.Ordered {α : Type} [LE α] (denotes : Value → α → Prop) (zero largest : α)
    (options : PropertyOptions) (min max default : α) : Prop where
  least : Setting denotes (· = zero) (options.min.map .double) min
  greatest : Setting denotes (· = largest) (options.max.map .double) max
  start : Setting denotes (· = min) options.default default
  min_le : min ≤ default
  le_max : default ≤ max

/-- The type that a tag denotes, by its handle or by its name. -/
def TypeTag.Denotes (r : Registry) (type : TypeHandle) : TypeTag → Prop
  | .type handle => handle = type
  | .named name => r.typeName? type = some name
  | _ => False

namespace Property

/-- What a declaration of a registered type is completed to. -/
inductive CompletesType (r : Registry) (options : PropertyOptions) (type : TypeHandle) :
    SpecKind → Prop
  /-- An instance of a class or an interface takes neither bounds nor a default. -/
  | object (hkind : r.kind? type = some .object ∨ r.kind? type = some .interface)
      (hbounds : options.Unbounded) (hdefault : options.default = none) :
      CompletesType r options type (.object type)
  /-- An enumeration takes one of its members as the default, the first one if none is given. -/
  | enumeration {members : List EnumMember} {default : Int32}
      (hmembers : r.enumMembers? type = some members) (hbounds : options.Unbounded)
      (hdefault : Setting (fun v n => v = .enumeration n ∨ v = .int n)
        (members.head?.map (·.value) = some ·) options.default default)
      (hmember : default ∈ members.map (·.value)) :
      CompletesType r options type (.enumeration type default)

/-- A declaration is consistent, and this is the kind that it is completed to. -/
inductive Consistent (r : Registry) (options : PropertyOptions) : TypeTag → SpecKind → Prop
  | string {default : String} (hbounds : options.Unbounded)
      (hdefault : Setting (fun v text => v = .string text) (· = "") options.default default) :
      Consistent r options .string (.string default)
  | bool {default : Bool} (hbounds : options.Unbounded)
      (hdefault : Setting (fun v flag => v = .bool flag) (· = false) options.default default) :
      Consistent r options .bool (.bool default)
  | uint {min max default : UInt32}
      (hordered : options.Ordered (fun v n => v.number? = some (n.toNat : ℚ)) 0 4294967295
        min max default) :
      Consistent r options .uint (.uint min max default)
  | int {min max default : Int32}
      (hordered : options.Ordered (fun v n => v.number? = some (n.toInt : ℚ)) 0 Int32.maxValue
        min max default) :
      Consistent r options .int (.int min max default)
  | double {min max default : Float}
      (hordered : options.Ordered (fun v x => v.toDouble? = some x ∧ x.isNaN = false) 0
        largestDouble min max default) :
      Consistent r options .double (.double min max default)
  | type {tag : TypeTag} {type : TypeHandle} {kind : SpecKind} (hdenotes : tag.Denotes r type)
      (hcompletes : CompletesType r options type kind) : Consistent r options tag kind

/-! ## Bounds -/

variable {name : String} {options : PropertyOptions}

/-- Where bounds are rejected, none may be given. -/
theorem rejectBounds_bind_eq_ok {f : Unit → Except ResolveError PropertySpec}
    {spec : PropertySpec} :
    (rejectBounds name options >>= f) = .ok spec ↔ options.Unbounded ∧ f () = .ok spec := by
  have hrejects : rejectBounds name options = .ok () ↔ options.Unbounded := by
    unfold rejectBounds PropertyOptions.Unbounded
    cases options.min <;> cases options.max <;> simp
  rw [bind_eq_ok, ← hrejects]
  exact ⟨fun ⟨_, hbounds, h⟩ => ⟨hbounds, h⟩, fun ⟨hbounds, h⟩ => ⟨(), hbounds, h⟩⟩

theorem convert_eq_ok {α : Type} {option : String} {convert? : Float → Option α} {x : Float}
    {a : α} :
    convert name option convert? x = .ok a ↔ convert? x = some a := by
  unfold convert
  cases convert? x <;> simp

section
variable {α : Type} {denotes : Value → α → Prop} {convert? : Float → Option α}
  {zero largest min max default : α} {top : Float}
  (hconvert : ∀ v a, denotes v a ↔ ∃ x, v.toDouble? = some x ∧ convert? x = some a)
include hconvert

/-- A bound that is given is taken into the type, and so is what is filled in. -/
theorem setting_bound {filled : α} {given : Option Float} {a : α}
    (hfilled : convert? top = some filled) :
    convert? (given.getD top) = some a ↔ Setting denotes (· = filled) (given.map .double) a := by
  cases given with
  | none => exact hfilled ▸ Option.some_inj.trans eq_comm
  | some x => exact ((hconvert (.double x) a).trans (by simp [Value.toDouble?])).symm

/-- Bounds and a default are completed exactly if they are numbers of the type. -/
theorem numericBounds_eq_ok (hzero : convert? 0 = some zero)
    (hlargest : convert? top = some largest) :
    numericBounds name options top convert? = .ok (min, max, default) ↔
      Setting denotes (· = zero) (options.min.map .double) min ∧
        Setting denotes (· = largest) (options.max.map .double) max ∧
        Setting denotes (· = min) options.default default := by
  rw [← setting_bound hconvert hzero, ← setting_bound hconvert hlargest]
  unfold numericBounds
  simp only [bind_eq_ok, convert_eq_ok]
  cases hdefault : options.default with
  | none =>
    simp only [pure, Except.pure, Except.ok.injEq, Prod.mk.injEq, Setting]
    grind
  | some v =>
    show _ ↔ _ ∧ _ ∧ denotes v default
    rw [hconvert]
    dsimp only
    cases v.toDouble? with
    | none => simp
    | some x =>
      simp only [bind_eq_ok, convert_eq_ok, pure, Except.pure, Except.ok.injEq, Prod.mk.injEq]
      grind

/-- **Numbers are completed exactly if they are in order.** -/
theorem numbers_eq_ok [LE α] (hzero : convert? 0 = some zero)
    (hlargest : convert? top = some largest)
    {build : α → α → α → Except SpecError PropertySpec} {made : α → α → α → PropertySpec}
    {spec : PropertySpec}
    (hbuild : ∀ min max default, liftSpec (build min max default) = .ok spec ↔
      (min ≤ default ∧ default ≤ max) ∧ made min max default = spec) :
    (do
      let (min, max, default) ← numericBounds name options top convert?
      liftSpec (build min max default)) = .ok spec ↔
      ∃ min max default, options.Ordered denotes zero largest min max default ∧
        made min max default = spec := by
  rw [bind_eq_ok]
  constructor
  · rintro ⟨⟨min, max, default⟩, hbounds, h⟩
    obtain ⟨hleast, hgreatest, hstart⟩ := (numericBounds_eq_ok hconvert hzero hlargest).mp hbounds
    obtain ⟨⟨hmin, hmax⟩, hspec⟩ := (hbuild min max default).mp h
    exact ⟨min, max, default, ⟨hleast, hgreatest, hstart, hmin, hmax⟩, hspec⟩
  · rintro ⟨min, max, default, h, hspec⟩
    exact ⟨(min, max, default),
      (numericBounds_eq_ok hconvert hzero hlargest).mpr ⟨h.least, h.greatest, h.start⟩,
      (hbuild min max default).mpr ⟨⟨h.min_le, h.le_max⟩, hspec⟩⟩

end

/-- A descriptor is built exactly if its bounds and its default are in order. -/
theorem liftSpec_eq_ok {c : Prop} [Decidable c] {s spec : PropertySpec} {e : SpecError} :
    liftSpec (if c then .ok s else .error e) = .ok spec ↔ c ∧ s = spec := by
  unfold liftSpec
  rw [mapError_eq_ok]
  split <;> simp [*]

/-! ## Types -/

section
variable {r : Registry} {label : PropertyLabel} {type : TypeHandle} {spec : PropertySpec}

/-- The default of an enumeration is what is given, or its first member. -/
theorem enumDefault_eq_ok {unsupported : ResolveError} {members : List EnumMember} {n : Int32} :
    enumDefault name unsupported members options.default = .ok n ↔
      Setting (fun v n => v = .enumeration n ∨ v = .int n) (members.head?.map (·.value) = some ·)
        options.default n := by
  unfold enumDefault Setting
  split <;> simp_all
  cases members.head? <;> simp

/-- Of a class or an interface. -/
theorem resolveType_of_object {info : TypeInfo} (hinfo : r.info? type = some info)
    (hkind : info.kind = .object ∨ info.kind = .interface) :
    resolveType r label options type = .ok spec ↔
      (options.Unbounded ∧ options.default = none) ∧ .ofKind label (.object type) = spec := by
  have hresolve : resolveType r label options type = (do
      rejectBounds label.name options
      if options.default.isSome then .error (.invalidOption label.name "default")
      else return .ofKind label (.object type)) := by
    unfold resolveType
    rw [hinfo]
    dsimp only
    rcases hkind with hkind | hkind <;> rw [hkind]
  rw [hresolve, rejectBounds_bind_eq_ok]
  cases options.default <;> simp [pure, Except.pure]

/-- Of an enumeration. -/
theorem resolveType_of_enumeration {info : TypeInfo} (hinfo : r.info? type = some info)
    (hkind : info.kind = .enumeration) :
    resolveType r label options type = .ok spec ↔
      ∃ default, (options.Unbounded ∧
        Setting (fun v n => v = .enumeration n ∨ v = .int n)
          (info.members.head?.map (·.value) = some ·) options.default default ∧
        default ∈ info.members.map (·.value)) ∧
        .ofKind label (.enumeration type default) = spec := by
  unfold resolveType
  rw [hinfo]
  dsimp only
  rw [hkind]
  rw [rejectBounds_bind_eq_ok]
  simp only [bind_eq_ok, enumDefault_eq_ok]
  have hmember (n : Int32) : (info.members.any (·.value = n)) = true ↔
      n ∈ info.members.map (·.value) := by simp
  constructor
  · rintro ⟨hbounds, default, hdefault, h⟩
    split at h
    · next hany =>
      exact ⟨default, ⟨hbounds, hdefault, (hmember default).mp hany⟩, Except.ok.inj h⟩
    · cases h
  · rintro ⟨default, ⟨hbounds, hdefault, hin⟩, hspec⟩
    refine ⟨hbounds, default, hdefault, ?_⟩
    rw [if_pos ((hmember default).mpr hin), ← hspec]
    rfl

/-- **A declaration of a registered type is completed as its kind asks for.** -/
theorem resolveType_eq_ok :
    resolveType r label options type = .ok spec ↔
      ∃ kind, CompletesType r options type kind ∧ .ofKind label kind = spec := by
  cases hinfo : r.info? type with
  | none =>
    have hkind : r.kind? type = none := by rw [Registry.kind?, hinfo]; rfl
    have hmembers : r.enumMembers? type = none := by rw [Registry.enumMembers?, hinfo]
    have hresolve : resolveType r label options type ≠ .ok spec := by
      intro hok
      unfold resolveType at hok
      rw [hinfo] at hok
      cases hok
    refine iff_of_false hresolve ?_
    rintro ⟨kind, hcompletes, -⟩
    cases hcompletes with
    | object h => rw [hkind] at h; rcases h with h | h <;> cases h
    | enumeration h => rw [hmembers] at h; cases h
  | some info =>
    have hkind : r.kind? type = some info.kind := by rw [Registry.kind?, hinfo]; rfl
    have hmembers : r.enumMembers? type =
        if info.kind = .enumeration then some info.members else none := by
      rw [Registry.enumMembers?, hinfo]
    by_cases henum : info.kind = .enumeration
    · rw [resolveType_of_enumeration hinfo henum]
      rw [if_pos henum] at hmembers
      constructor
      · rintro ⟨default, ⟨hbounds, hdefault, hin⟩, hspec⟩
        exact ⟨_, .enumeration hmembers hbounds hdefault hin, hspec⟩
      · rintro ⟨kind, hcompletes, hspec⟩
        cases hcompletes with
        | object h =>
          rw [hkind, henum] at h
          rcases h with h | h <;> cases h
        | enumeration h hbounds hdefault hin =>
          cases hmembers.symm.trans h
          exact ⟨_, ⟨hbounds, hdefault, hin⟩, hspec⟩
    · have hobject : info.kind = .object ∨ info.kind = .interface := by
        cases hk : info.kind with
        | object => exact .inl rfl
        | interface => exact .inr rfl
        | enumeration => exact absurd hk henum
      rw [resolveType_of_object hinfo hobject]
      rw [if_neg henum] at hmembers
      constructor
      · rintro ⟨⟨hbounds, hdefault⟩, hspec⟩
        have hclass := hobject.imp (hkind.trans <| congrArg some ·) (hkind.trans <| congrArg some ·)
        exact ⟨_, .object hclass hbounds hdefault, hspec⟩
      · rintro ⟨kind, hcompletes, hspec⟩
        cases hcompletes with
        | object h hbounds hdefault => exact ⟨⟨hbounds, hdefault⟩, hspec⟩
        | enumeration h => rw [hmembers] at h; cases h

end

/-! ## Completion -/

theorem uint_denotes (v : Value) (n : UInt32) :
    v.number? = some (n.toNat : ℚ) ↔ ∃ x, v.toDouble? = some x ∧ uintOfDouble? x = some n := by
  simp only [Value.number?_eq_some, uintOfDouble?_eq_some]

theorem int_denotes (v : Value) (n : Int32) :
    v.number? = some (n.toInt : ℚ) ↔ ∃ x, v.toDouble? = some x ∧ intOfDouble? x = some n := by
  simp only [Value.number?_eq_some, intOfDouble?_eq_some]

theorem double_denotes (v : Value) (y : Float) :
    (v.toDouble? = some y ∧ y.isNaN = false) ↔
      ∃ x, v.toDouble? = some x ∧ doubleOfDouble? x = some y := by
  simp only [doubleOfDouble?_eq_some]
  constructor
  · rintro ⟨hdouble, hnumber⟩
    exact ⟨y, hdouble, rfl, hnumber⟩
  · rintro ⟨x, hdouble, rfl, hnumber⟩
    exact ⟨hdouble, hnumber⟩

/-- **A declaration can be completed exactly if it is consistent.** -/
theorem resolve_eq_ok {r : Registry} (hr : r.Sound) {tag : TypeTag} {spec : PropertySpec} :
    resolve r name tag options = .ok spec ↔
      ∃ kind, Consistent r options tag kind ∧ .ofKind (label name options) kind = spec := by
  unfold resolve
  extract_lets label
  cases tag with
  | string =>
    rw [rejectBounds_bind_eq_ok]
    constructor
    · rintro ⟨hbounds, h⟩
      split at h
      · next hgiven => exact ⟨_, .string hbounds (by rw [hgiven]; rfl), Except.ok.inj h⟩
      · next text hgiven => exact ⟨_, .string hbounds (by rw [hgiven]; rfl), Except.ok.inj h⟩
      · cases h
    · rintro ⟨kind, hconsistent, hspec⟩
      cases hconsistent with
      | string hbounds hdefault =>
        refine ⟨hbounds, ?_⟩
        generalize options.default = given at hdefault
        cases given <;> cases hdefault <;> exact congrArg Except.ok hspec
      | type hdenotes => cases hdenotes
  | bool =>
    rw [rejectBounds_bind_eq_ok]
    constructor
    · rintro ⟨hbounds, h⟩
      split at h
      · next hgiven => exact ⟨_, .bool hbounds (by rw [hgiven]; rfl), Except.ok.inj h⟩
      · next flag hgiven => exact ⟨_, .bool hbounds (by rw [hgiven]; rfl), Except.ok.inj h⟩
      · cases h
    · rintro ⟨kind, hconsistent, hspec⟩
      cases hconsistent with
      | bool hbounds hdefault =>
        refine ⟨hbounds, ?_⟩
        generalize options.default = given at hdefault
        cases given <;> cases hdefault <;> exact congrArg Except.ok hspec
      | type hdenotes => cases hdenotes
  | uint =>
    have hbuild (min max default : UInt32) :
        liftSpec (PropertySpec.uint label min max default) = .ok spec ↔
          (min ≤ default ∧ default ≤ max) ∧ .ofKind label (.uint min max default) = spec :=
      liftSpec_eq_ok
    refine (numbers_eq_ok uint_denotes uintOfDouble?_zero uintOfDouble?_largest hbuild).trans ?_
    constructor
    · rintro ⟨min, max, default, hordered, hspec⟩
      exact ⟨_, .uint hordered, hspec⟩
    · rintro ⟨kind, hconsistent, hspec⟩
      cases hconsistent with
      | uint hordered => exact ⟨_, _, _, hordered, hspec⟩
      | type hdenotes => cases hdenotes
  | int =>
    have hbuild (min max default : Int32) :
        liftSpec (PropertySpec.int label min max default) = .ok spec ↔
          (min ≤ default ∧ default ≤ max) ∧ .ofKind label (.int min max default) = spec :=
      liftSpec_eq_ok
    refine (numbers_eq_ok int_denotes intOfDouble?_zero intOfDouble?_largest hbuild).trans ?_
    constructor
    · rintro ⟨min, max, default, hordered, hspec⟩
      exact ⟨_, .int hordered, hspec⟩
    · rintro ⟨kind, hconsistent, hspec⟩
      cases hconsistent with
      | int hordered => exact ⟨_, _, _, hordered, hspec⟩
      | type hdenotes => cases hdenotes
  | double =>
    have hbuild (min max default : Float) :
        liftSpec (PropertySpec.double label min max default) = .ok spec ↔
          (min ≤ default ∧ default ≤ max) ∧ .ofKind label (.double min max default) = spec :=
      liftSpec_eq_ok
    refine
      (numbers_eq_ok double_denotes doubleOfDouble?_zero doubleOfDouble?_largest hbuild).trans ?_
    constructor
    · rintro ⟨min, max, default, hordered, hspec⟩
      exact ⟨_, .double hordered, hspec⟩
    · rintro ⟨kind, hconsistent, hspec⟩
      cases hconsistent with
      | double hordered => exact ⟨_, _, _, hordered, hspec⟩
      | type hdenotes => cases hdenotes
  | type handle =>
    simp only [resolveType_eq_ok]
    constructor
    · rintro ⟨kind, hcompletes, hspec⟩
      exact ⟨kind, .type rfl hcompletes, hspec⟩
    · rintro ⟨kind, hconsistent, hspec⟩
      cases hconsistent with
      | type hdenotes hcompletes =>
        cases hdenotes
        exact ⟨kind, hcompletes, hspec⟩
  | named typeName =>
    dsimp only
    constructor
    · intro h
      split at h
      · next handle hlookup =>
        obtain ⟨kind, hcompletes, hspec⟩ := resolveType_eq_ok.mp h
        exact ⟨kind, .type (hr.typeName?_eq_some.mpr hlookup) hcompletes, hspec⟩
      · cases h
    · rintro ⟨kind, hconsistent, hspec⟩
      cases hconsistent with
      | type hdenotes hcompletes =>
        rw [hr.typeName?_eq_some.mp hdenotes]
        exact resolveType_eq_ok.mpr ⟨kind, hcompletes, hspec⟩

/-- An object is null where nothing was written. -/
theorem defaultValue_object {spec : PropertySpec} {type : TypeHandle}
    (h : spec.kind = .object type) :
    spec.defaultValue = .object none := by
  rw [PropertySpec.defaultValue, h]

end Property

/-- **Exactly the consistent declarations are completed**, in every registry that declarations lead
to. The descriptor has the given name, the bounds and the default that were given or are filled in,
and a default that passes its own check. An enumeration that is declared without a default has one to
take, since none is registered without members; and what is given as an integer is taken as a double,
where a double is asked for, without loss. -/
theorem consistent_declarations_are_completed (calls : List (Declaration β)) (name : String)
    (tag : TypeTag) (options : PropertyOptions) :
    let r := (World.declareAll ({} : World β) calls).registry
    ((∃ spec, Property.resolve r name tag options = .ok spec) ↔
        ∃ kind, Property.Consistent r options tag kind) ∧
      (∀ spec, Property.resolve r name tag options = .ok spec →
        spec.name = name ∧ Property.Consistent r options tag spec.kind ∧
          (∀ type, spec.kind = .object type → spec.defaultValue = .object none) ∧
          ∀ isA, spec.check isA spec.defaultValue = .ok ()) ∧
      (∀ type members, r.enumMembers? type = some members → members ≠ []) ∧
      ∀ (v : Value) (x : Float), v.toDouble? = some x → Decimal.rational? x = v.number? := by
  intro r
  have hr : r.Sound := (World.sound_declareAll Registry.sound_builtin calls).1
  refine ⟨⟨?_, ?_⟩, ?_, fun type members h => (hr.lawful.members type members h).1,
    fun v x => Value.rational?_of_toDouble?⟩
  · rintro ⟨spec, h⟩
    obtain ⟨kind, hconsistent, -⟩ := (Property.resolve_eq_ok hr).mp h
    exact ⟨kind, hconsistent⟩
  · rintro ⟨kind, hconsistent⟩
    exact ⟨_, (Property.resolve_eq_ok hr).mpr ⟨kind, hconsistent, rfl⟩⟩
  · intro spec h
    have hmade := Property.made_of_resolve h
    obtain ⟨kind, hconsistent, rfl⟩ := (Property.resolve_eq_ok hr).mp h
    exact ⟨rfl, hconsistent, fun type => Property.defaultValue_object, hmade.check_default⟩

end ObjectSystem
