import Mathlib
import ObjectSystem.Proofs.Ancestry
import ObjectSystem.Proofs.Refusals
import ObjectSystem.Proofs.Written

/-!
# Properties of enumerations

The default of a property of an enumeration is a member, or else the declaration fails
(`PropertySpec.defaultIn_of_resolve`). A value that is written is only asked whether it is a value
of some enumeration, not whether it is a member of this one. A property that was declared by the
name or the handle of an enumeration therefore holds a member exactly as long as nothing was written
to it, or a member was written last (`enumeration_properties_hold_what_was_written`).
-/

namespace ObjectSystem

variable {σ β κ : Type}

/-! ## Members -/

/-- Whether an enumeration has a member of this value. -/
def Registry.hasMember (r : Registry) (type : TypeHandle) (value : Int32) : Bool :=
  match r.enumMembers? type with
  | some members => members.any (·.value = value)
  | none => false

/-- A registry that grows keeps the members of the enumerations that it has. -/
theorem Registry.hasMember_grown {r r' : Registry} (h : r.types <+: r'.types) {type : TypeHandle}
    {value : Int32} (hmember : r.hasMember type value = true) : r'.hasMember type value = true := by
  unfold hasMember enumMembers? at hmember ⊢
  cases hinfo : r.info? type with
  | none =>
      rw [hinfo] at hmember
      cases hmember
  | some info =>
      rw [hinfo] at hmember
      rw [info?_grown h hinfo]
      exact hmember

/-- If a property is one of an enumeration, its default is a member. -/
def PropertySpec.DefaultIn (r : Registry) (s : PropertySpec) : Prop :=
  ∀ type default, s.kind = .enumeration type default → r.hasMember type default = true

namespace PropertySpec

theorem DefaultIn.grown {r r' : Registry} {s : PropertySpec} (h : s.DefaultIn r)
    (hgrown : r.types <+: r'.types) : s.DefaultIn r' :=
  fun type default hkind => Registry.hasMember_grown hgrown (h type default hkind)

theorem defaultIn_of_resolveType {r : Registry} {label : PropertyLabel} {options : PropertyOptions}
    {type : TypeHandle} {s : PropertySpec} (h : Property.resolveType r label options type = .ok s) :
    s.DefaultIn r := by
  have hobject (h : (do
      Property.rejectBounds label.name options
      if options.default.isSome then .error (.invalidOption label.name "default")
      else return .ofKind label (.object type) : Except ResolveError PropertySpec) = .ok s) :
      s.DefaultIn r := by
    obtain ⟨-, -, h⟩ := bind_eq_ok.mp h
    split at h
    · cases h
    · cases h
      rintro type default ⟨⟩
  unfold Property.resolveType at h
  split at h
  · cases h
  · next info hinfo =>
      split at h
      · exact hobject h
      · exact hobject h
      · next hkind =>
          simp only [bind_eq_ok] at h
          obtain ⟨-, -, default, -, h⟩ := h
          split at h
          · next hmember =>
              cases h
              rintro type' default' ⟨⟩
              unfold Registry.hasMember Registry.enumMembers?
              rw [hinfo]
              dsimp only
              rw [if_pos hkind]
              exact hmember
          · cases h

theorem kind_of_bounded {inOrder : Prop} [Decidable inOrder] {label : PropertyLabel}
    {kind : SpecKind} {e : SpecError} {s : PropertySpec}
    (h : (if inOrder then .ok (ofKind label kind) else .error e) = Except.ok s) :
    s.kind = kind := by
  split at h <;> cases h
  rfl

/-- **A default that is no member fails the declaration.** -/
theorem defaultIn_of_resolve {r : Registry} {name : String} {tag : TypeTag}
    {options : PropertyOptions} {s : PropertySpec}
    (h : Property.resolve r name tag options = .ok s) : s.DefaultIn r := by
  have hplain (hkind : ∀ type default, s.kind ≠ .enumeration type default) : s.DefaultIn r :=
    fun type default heq => absurd heq (hkind type default)
  unfold Property.resolve at h
  extract_lets label at h
  cases tag with
  | string =>
      simp only [bind_eq_ok] at h
      obtain ⟨-, -, h⟩ := h
      split at h <;> cases h <;> exact hplain nofun
  | bool =>
      simp only [bind_eq_ok] at h
      obtain ⟨-, -, h⟩ := h
      split at h <;> cases h <;> exact hplain nofun
  | uint =>
      simp only [bind_eq_ok] at h
      obtain ⟨⟨min, max, default⟩, -, h⟩ := h
      exact hplain (kind_of_bounded (mapError_eq_ok.mp h) ▸ nofun)
  | int =>
      simp only [bind_eq_ok] at h
      obtain ⟨⟨min, max, default⟩, -, h⟩ := h
      exact hplain (kind_of_bounded (mapError_eq_ok.mp h) ▸ nofun)
  | double =>
      simp only [bind_eq_ok] at h
      obtain ⟨⟨min, max, default⟩, -, h⟩ := h
      exact hplain (kind_of_bounded (mapError_eq_ok.mp h) ▸ nofun)
  | type handle => exact defaultIn_of_resolveType h
  | named typeName =>
      dsimp only at h
      split at h
      · exact defaultIn_of_resolveType h
      · cases h

end PropertySpec

/-! ## Declarations -/

/-- The builders whose properties were declared against earlier states of a registry. The default of
a ready-made descriptor is up to whoever made it. -/
inductive ClassBuilder.MadeIn (r : Registry) : ClassBuilder β → Prop
  | new {b : ClassBuilder β} (hp : b.properties = []) (hm : b.manualProperties = []) : MadeIn r b
  | stored {b b' : ClassBuilder β} (h : MadeIn r b) {earlier : Registry}
      (hr : earlier.types <+: r.types) {name : String} {tag : TypeTag} {options : PropertyOptions}
      {notify : Option NotifyPolicy} {equality : Option ObjectEquality} {effect : Option β}
      (hb : b.stored earlier name tag options notify equality effect = .ok b') : MadeIn r b'
  | computed {b b' : ClassBuilder β} (h : MadeIn r b) {earlier : Registry}
      (hr : earlier.types <+: r.types) {name : String} {tag : TypeTag} {options : PropertyOptions}
      {backingField : Option String} {getter : β}
      (hb : b.computed earlier name tag options backingField getter = .ok b') : MadeIn r b'
  | manual {b : ClassBuilder β} (h : MadeIn r b) {s : PropertySpec} (hs : s.Made)
      (hdefault : s.DefaultIn r) : MadeIn r (b.manual s)
  | declares {b b' : ClassBuilder β} (h : MadeIn r b) (hp : b'.properties = b.properties)
      (hm : b'.manualProperties = b.manualProperties) : MadeIn r b'

/-- The classes that finalizing such builders leads to, on top of such classes. -/
inductive Class.BuiltIn (r : Registry) : Class β → Prop
  | finalize {b : ClassBuilder β} (hb : b.MadeIn r)
      (hparent : ∀ parent, b.parent = some (.declared parent) → BuiltIn r parent)
      {r₁ r₂ : Registry} {c : Class β} (hc : b.finalize r₁ = .ok (r₂, c)) : BuiltIn r c

namespace ClassBuilder.MadeIn

variable {r : Registry} {b : ClassBuilder β}

theorem made (h : b.MadeIn r) : b.Made := by
  induction h with
  | new hp hm => exact .new hp hm
  | stored _ _ hb ih => exact ih.stored hb
  | computed _ _ hb ih => exact ih.computed hb
  | manual _ hs _ ih => exact ih.manual hs
  | declares _ hp hm ih => exact ih.declares hp hm

theorem specs (h : b.MadeIn r) :
    (∀ entry ∈ b.properties, entry.spec.DefaultIn r) ∧
      ∀ s ∈ b.manualProperties, s.DefaultIn r := by
  induction h with
  | new hp hm =>
      rw [hp, hm]
      exact ⟨fun _ h => (by cases h), fun _ h => (by cases h)⟩
  | stored h hr hb ih =>
      obtain ⟨spec, hspec, hb⟩ := bind_eq_ok.mp hb
      cases hb
      -- a member of the registry then is one of what it has grown to
      have hdefault := (PropertySpec.defaultIn_of_resolve (mapError_eq_ok.mp hspec)).grown hr
      exact ⟨List.forall_mem_append.mpr ⟨ih.1, List.forall_mem_singleton.mpr hdefault⟩, ih.2⟩
  | computed h hr hb ih =>
      unfold ClassBuilder.computed at hb
      split at hb
      · cases hb
      · obtain ⟨spec, hspec, hb⟩ := bind_eq_ok.mp hb
        cases hb
        have hdefault := (PropertySpec.defaultIn_of_resolve (mapError_eq_ok.mp hspec)).grown hr
        exact ⟨List.forall_mem_append.mpr ⟨ih.1, List.forall_mem_singleton.mpr hdefault⟩, ih.2⟩
  | manual h hs hdefault ih =>
      exact ⟨ih.1, List.forall_mem_append.mpr ⟨ih.2, List.forall_mem_singleton.mpr hdefault⟩⟩
  | declares _ hp hm ih =>
      rw [hp, hm]
      exact ih

end ClassBuilder.MadeIn

namespace Class.BuiltIn

variable {r : Registry} {c : Class β}

theorem built (h : c.BuiltIn r) : c.Built := by
  induction h with
  | finalize hb hparent hc ih => exact .finalize hb.made ih hc

theorem level {level : ClassLevel β} (h : c.BuiltIn r) (hlevel : level ∈ c.levels) {name : String}
    {entry : PropertyEntry β} (hfind : level.properties.find? name = some entry) :
    entry.spec.DefaultIn r := by
  induction h with
  | @finalize b hb hparent r₁ r₂ c hc ih =>
      rcases ClassBuilder.mem_levels_of_finalize hc hlevel with hown | ⟨parent, hp, hlevel⟩
      · rw [hown] at hfind
        exact (ClassBuilder.of_find?_propertyEntries hb.specs hfind).2
      · exact ih parent hp hlevel

/-- **The default of a property of an enumeration is a member**, at whatever level of the class the
property was declared. -/
theorem findProperty? (h : c.BuiltIn r) {name : String} {entry : PropertyEntry β}
    (hfind : c.findProperty? name = some entry) : entry.spec.DefaultIn r := by
  obtain ⟨level, hlevel, hspelling⟩ := List.exists_of_findSome?_eq_some hfind
  rcases Class.findSpelling_eq_some hspelling with hfound | ⟨-, hfound⟩
  · exact h.level hlevel hfound
  · exact h.level hlevel hfound

end Class.BuiltIn

/-! ## Values -/

namespace PropertySpec

variable {s : PropertySpec} {type : TypeHandle} {default : Int32}

/-- A check asks for a value of some enumeration, whatever its members. -/
theorem check_enumeration (hkind : s.kind = .enumeration type default)
    (isA : InstanceId → TypeHandle → Bool) {v : Value} :
    s.check isA v = .ok () ↔ ∃ k, v = .enumeration k := by
  rw [check_eq_ok, valueType, hkind]
  cases v <;> simp [Value.conformsTo, inBounds]

end PropertySpec

/-- A write is admitted to a property of an enumeration if the property can be written and the value
is one of an enumeration. -/
theorem Instance.admitWrite_enumeration {x : Instance β} {isA : InstanceId → TypeHandle → Bool}
    {name : String} {entry : PropertyEntry β} {type : TypeHandle} {default : Int32}
    (hfind : x.ofClass.findProperty? name = some entry)
    (hkind : entry.spec.kind = .enumeration type default) (k : Int32) :
    (∃ write, x.admitWrite isA name (.enumeration k) = .ok write) ↔
      ¬x.Closed entry ∧ ¬x.Late entry := by
  constructor
  · rintro ⟨write, hwrite⟩
    refine ⟨fun hclosed => ?_, fun hlate => ?_⟩
    · cases hwrite.symm.trans (admitWrite_of_closed hfind hclosed)
    · by_cases hclosed : x.Closed entry
      · cases hwrite.symm.trans (admitWrite_of_closed hfind hclosed)
      · cases hwrite.symm.trans (admitWrite_of_late hfind hclosed hlate)
  · rintro ⟨hopen, hearly⟩
    obtain ⟨write, hwrite⟩ := admitWrite_of_open isA (.enumeration k) hfind hopen hearly
    rw [(PropertySpec.check_enumeration hkind isA).mpr ⟨k, rfl⟩] at hwrite
    exact ⟨write, hwrite⟩

/-- Values of enumerations, as such. -/
theorem exists_map_enumeration {values : List Value}
    (h : ∀ v ∈ values, ∃ k, v = Value.enumeration k) :
    ∃ written : List Int32, values = written.map .enumeration := by
  induction values with
  | nil => exact ⟨[], rfl⟩
  | cons v values ih =>
      obtain ⟨⟨k, rfl⟩, hrest⟩ := List.forall_mem_cons.mp h
      obtain ⟨written, rfl⟩ := ih hrest
      exact ⟨k :: written, rfl⟩

/-- **Properties of enumerations hold what was written.** In a run that instantiates classes
declared against earlier states of a registry, a stored property of an enumeration reads as the
value that was written to it last, by whomever and under whatever spelling, and as its default
before. The default is a member. So the property holds a member exactly if nothing was written to
it, or a member last; and a write does not ask for that: it is admitted whatever the number. -/
theorem enumeration_properties_hold_what_was_written (client : Client σ β κ) (state : σ)
    (program : β) (r : Registry) (n : Nat)
    (hbuilt : ∀ k, k < n → ∀ c,
      ((Machine.initial state program).after client k).control = .perform (.construct c) →
        c.ofClass.BuiltIn r) :
    let m : Machine σ β κ := (Machine.initial state program).after client n
    ∀ i x, m.world.instance? i = some x → ∀ name spec notify equality effect type default,
      x.ofClass.findProperty? name = some ⟨spec, .stored notify equality effect⟩ →
      spec.kind = .enumeration type default →
        ∃ written : List Int32,
          Machine.writes client (.initial state program) i spec.name n = written.map .enumeration ∧
          m.world.perform (.property i name) =
            .reply m.world (.value (some (.enumeration (written.getLast?.getD default)))) ∧
          r.hasMember type default = true ∧
          (r.hasMember type (written.getLast?.getD default) = true ↔
            ∀ last, written.getLast? = some last → r.hasMember type last = true) ∧
          ∀ k, (∃ write, x.admitWrite m.world.isA name (.enumeration k) = .ok write) ↔
            ¬x.Closed ⟨spec, .stored notify equality effect⟩ ∧
              ¬x.Late ⟨spec, .stored notify equality effect⟩ := by
  intro m i x hx name spec notify equality effect type default hfind hkind
  obtain ⟨⟨k, con, hk, hconstruct, hclass⟩, hstored⟩ :=
    Machine.stored_of_initial client state program (World.values?_eq hx)
  have hbuiltIn : x.ofClass.BuiltIn r := hclass ▸ hbuilt k hk con hconstruct
  have hfiled := hbuiltIn.built.filed
  obtain ⟨hdeclared, -⟩ := hfiled.findProperty?_name hfind
  have hmember : r.hasMember type default = true := hbuiltIn.findProperty? hfind type default hkind
  obtain ⟨written, hwritten⟩ := exists_map_enumeration fun v hv => by
    obtain ⟨j, -, hcheck⟩ := Machine.checked_of_mem_writes
      (Machine.Reachable.initial state program) hx hfiled hdeclared hv
    exact (PropertySpec.check_enumeration hkind _).mp hcheck
  refine ⟨written, hwritten, ?_, hmember, ?_, Instance.admitWrite_enumeration hfind hkind⟩
  · have hdefault : spec.defaultValue = .enumeration default := by
      unfold PropertySpec.defaultValue
      rw [hkind]
    simp only [World.perform, World.readProperty, hx, hfind]
    rw [hstored, hwritten, List.getLast?_map, hdefault]
    cases written.getLast? <;> rfl
  · cases written.getLast? with
    | none => exact iff_of_true hmember fun _ heq => absurd heq.symm (Option.some_ne_none _)
    | some last => exact ⟨fun h _ heq => Option.some.inj heq ▸ h, fun h => h last rfl⟩

/-! ## A relay -/

/-- The registry that knows the modes of a relay. -/
def modeRegistry : Registry :=
  match Registry.builtin.registerEnum "Mode" [⟨0, "idle"⟩, ⟨1, "busy"⟩] with
  | .ok (r, _) => r
  | .error _ => .builtin

/-- A class with a stored property of that enumeration, declared by its name. -/
def relay : Except ClassError (ClassBuilder Nat) :=
  let bare : ClassBuilder Nat := { className := "Relay" }
  bare.stored modeRegistry "mode" (.named "Mode") {} none none none

def relayClass : Class Nat :=
  match relay.bind (·.finalize modeRegistry) with
  | .ok (_, c) => c
  | .error _ => .simple .empty [] none

theorem relayClass_builtIn : relayClass.BuiltIn modeRegistry := by
  unfold relayClass
  split
  · next r c hc =>
      obtain ⟨b, hb, hfinal⟩ := bind_eq_ok.mp hc
      have hbuilder : b.MadeIn modeRegistry := .stored (.new rfl rfl) (List.prefix_refl _) hb
      refine .finalize hbuilder (fun parent hparent => ?_) hfinal
      have hroot : b.parent = none := by
        obtain ⟨spec, -, hspec⟩ := bind_eq_ok.mp hb
        cases hspec
        rfl
      cases hroot.symm.trans hparent
  · next e he =>
      have hok : (relay.bind (·.finalize modeRegistry)).isOk = true := by decide +kernel
      rw [he] at hok
      cases hok

/-- A program that registers the modes, makes a relay, and sets its mode to a member and then to
what is none. -/
def switcher : Client Unit Nat (Routine Nat) :=
  .ofRoutines
    (fun _ => { acts := [.command (.registerEnum "Mode" [⟨0, "idle"⟩, ⟨1, "busy"⟩]),
      .command (.newContext { clock := .manual }),
      .command (.construct { ofClass := relayClass, context := ⟨0⟩ }),
      .command (.setProperty ⟨1⟩ "mode" (.enumeration 1)),
      .command (.setProperty ⟨1⟩ "mode" (.enumeration 7)),
      .command (.property ⟨1⟩ "mode")] })
    [.object ⟨1⟩]

/-- A state of the run of `switcher`. -/
def switcherAfter (n : Nat) : Machine Unit Nat (Routine Nat) :=
  (Machine.initial () 0).after switcher n

set_option maxRecDepth 100000 in
/-- When the first write is done, the relay has a mode that is a member: the one that was
written. -/
theorem enumeration_properties_hold_what_was_written_switcher :
    (switcherAfter 13).world.perform (.property ⟨1⟩ "mode") =
        .reply (switcherAfter 13).world (.value (some (.enumeration 1))) ∧
      modeRegistry.hasMember (modeRegistry.handle "Mode") 1 = true := by
  have hbuilt (k : Nat) (hk : k < 13) (c : Construction Nat)
      (hc : ((Machine.initial () 0).after switcher k).control = .perform (.construct c)) :
      c.ofClass.BuiltIn modeRegistry := by
    have hmoment : ∀ k, k < 13 →
        ((Machine.initial () 0).after switcher k).constructs = true → k = 6 := by decide +kernel
    obtain rfl := hmoment k hk (by rw [Machine.constructs, hc])
    have hrelay : ((Machine.initial () 0).after switcher 6).control =
        .perform (.construct { ofClass := relayClass, context := ⟨0⟩ }) := by rfl
    cases hrelay.symm.trans hc
    exact relayClass_builtIn
  obtain ⟨spec, hname, hkind, hentry⟩ : ∃ spec : PropertySpec,
      spec.name = "mode" ∧ spec.kind = .enumeration (modeRegistry.handle "Mode") 0 ∧
        ((switcherAfter 13).world.instance? ⟨1⟩).bind (·.ofClass.findProperty? "mode") =
          some ⟨spec, .stored none none none⟩ := ⟨_, rfl, rfl, rfl⟩
  obtain ⟨x, hx, hfind⟩ := Option.bind_eq_some_iff.mp hentry
  obtain ⟨written, hwritten, hread, -, hholds, -⟩ := enumeration_properties_hold_what_was_written
    switcher () 0 modeRegistry 13 hbuilt ⟨1⟩ x hx "mode" spec none none none _ 0 hfind hkind
  have hone : Machine.writes switcher (.initial () 0) ⟨1⟩ spec.name 13 = [1].map .enumeration := by
    rw [hname]
    decide +kernel
  obtain rfl : written = [1] :=
    List.map_injective_iff.mpr (fun _ _ => Value.enumeration.inj) (hwritten.symm.trans hone)
  exact ⟨hread, hholds.mpr fun last hlast => by cases hlast; decide +kernel⟩

set_option maxRecDepth 100000 in
/-- A number that is no member is written, and read back. -/
theorem no_member_is_held :
    (switcherAfter 14).control = .perform (.setProperty ⟨1⟩ "mode" (.enumeration 7)) ∧
      (switcherAfter 17).control = .deliver .done ∧
      (switcherAfter 18).control = .perform (.property ⟨1⟩ "mode") ∧
      (switcherAfter 19).control = .deliver (.value (some (.enumeration 7))) ∧
      modeRegistry.hasMember (modeRegistry.handle "Mode") 7 = false := by
  refine ⟨by rfl, by rfl, by rfl, by rfl, by decide +kernel⟩

end ObjectSystem
