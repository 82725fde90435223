import ObjectSystem.Class.Builder

/-!
# Classes that builders make

A property descriptor is *made* by one of the constructors of descriptors; a builder is made by a
sequence of declarations; a class is *built* by finalizing such a builder, on top of built classes.
Then

* the default of every property passes its own check (`PropertySpec.Made.check_default`);
* every level files its properties under their declared names (`Class.Built.filed`), so that a
  property found under any spelling is also found under its declared name
  (`Class.Filed.findProperty?_name`).
-/

namespace ObjectSystem

variable {β : Type}

/-! ## Descriptors -/

/-- The descriptors that the constructors yield. -/
inductive PropertySpec.Made : PropertySpec → Prop
  | string (label : PropertyLabel) (default : String) : Made (.ofKind label (.string default))
  | bool (label : PropertyLabel) (default : Bool) : Made (.ofKind label (.bool default))
  | uint {label : PropertyLabel} {min max default : UInt32} {s : PropertySpec}
      (h : PropertySpec.uint label min max default = .ok s) : Made s
  | int {label : PropertyLabel} {min max default : Int32} {s : PropertySpec}
      (h : PropertySpec.int label min max default = .ok s) : Made s
  | double {label : PropertyLabel} {min max default : Float} {s : PropertySpec}
      (h : PropertySpec.double label min max default = .ok s) : Made s
  | object (label : PropertyLabel) (type : TypeHandle) : Made (.ofKind label (.object type))
  | enumeration (label : PropertyLabel) (type : TypeHandle) (default : Int32) :
      Made (.ofKind label (.enumeration type default))

namespace PropertySpec

/-- A value passes a check exactly if it has the type and lies within the bounds. -/
theorem check_eq_ok {isA : InstanceId → TypeHandle → Bool} {s : PropertySpec} {v : Value} :
    s.check isA v = .ok () ↔ v.conformsTo isA s.valueType = true ∧ inBounds s.kind v = true := by
  unfold check
  cases v.conformsTo isA s.valueType <;> cases inBounds s.kind v <;> simp

/-- The default of a property that was never written is a value that could be written. -/
theorem Made.check_default {s : PropertySpec} (h : s.Made) (isA : InstanceId → TypeHandle → Bool) :
    s.check isA s.defaultValue = .ok () := by
  rw [check_eq_ok]
  cases h with
  | string label default => exact ⟨rfl, rfl⟩
  | bool label default => exact ⟨rfl, rfl⟩
  | @uint label min max default s h =>
      unfold PropertySpec.uint at h
      split at h
      · next hbounds =>
          cases h
          exact ⟨rfl, by simpa [inBounds, ofKind, defaultValue] using hbounds⟩
      · cases h
  | @int label min max default s h =>
      unfold PropertySpec.int at h
      split at h
      · next hbounds =>
          cases h
          exact ⟨rfl, by simpa [inBounds, ofKind, defaultValue] using hbounds⟩
      · cases h
  | @double label min max default s h =>
      unfold PropertySpec.double at h
      split at h
      · next hbounds =>
          cases h
          exact ⟨rfl, by simpa [inBounds, ofKind, defaultValue] using hbounds⟩
      · cases h
  | object label type => exact ⟨rfl, rfl⟩
  | enumeration label type default => exact ⟨rfl, rfl⟩

/-- A double that is at least as large as another is a number. -/
theorem isNaN_of_le {x y : Float} (h : x ≤ y) : y.isNaN = false := by
  have hle : decide (x.toModel.unpack.le y.toModel.unpack = true) = true := h
  rw [decide_eq_true_eq] at hle
  show y.toModel.unpack.isNaN = false
  generalize y.toModel.unpack = b at hle
  generalize x.toModel.unpack = a at hle
  cases b with
  | notANumber =>
      have hfalse : a.le .notANumber = false := by cases a <;> rfl
      cases hfalse.symm.trans hle
  | _ => rfl

/-- A double that passes a check is a number. -/
theorem isNaN_of_check {isA : InstanceId → TypeHandle → Bool} {s : PropertySpec} {x : Float}
    (h : s.check isA (.double x) = .ok ()) : x.isNaN = false := by
  obtain ⟨hconforms, hbounds⟩ := check_eq_ok.mp h
  unfold valueType at hconforms
  cases hkind : s.kind with
  | double min max default =>
      rw [hkind] at hbounds
      simp only [inBounds, Bool.and_eq_true, decide_eq_true_eq] at hbounds
      exact isNaN_of_le hbounds.1
  | _ =>
      rw [hkind] at hconforms
      cases hconforms

/-- A value that passes a check passes it also where its target has more types. -/
theorem check_mono {isA isA' : InstanceId → TypeHandle → Bool} {s : PropertySpec} {v : Value}
    (h : ∀ i ∈ v.targets, ∀ type, isA i type = true → isA' i type = true)
    (hcheck : s.check isA v = .ok ()) : s.check isA' v = .ok () := by
  rw [check_eq_ok] at hcheck ⊢
  obtain ⟨hconforms, hbounds⟩ := hcheck
  refine ⟨?_, hbounds⟩
  generalize s.valueType = type at hconforms ⊢
  cases v with
  | object target =>
      cases target with
      | none => cases type <;> exact hconforms
      | some i =>
          cases type with
          | object type => exact h i (by simp [Value.targets, Value.asObject?]) type hconforms
          | _ => cases hconforms
  | _ => cases type <;> exact hconforms

end PropertySpec

theorem bind_eq_ok {ε α γ : Type} {x : Except ε α} {f : α → Except ε γ} {c : γ} :
    (x >>= f) = .ok c ↔ ∃ a, x = .ok a ∧ f a = .ok c := by
  cases x with
  | error e => exact ⟨fun h => (by cases h), fun ⟨_, h, _⟩ => (by cases h)⟩
  | ok a =>
      refine ⟨fun h => ⟨a, rfl, h⟩, fun ⟨b, hb, h⟩ => ?_⟩
      cases hb
      exact h

theorem mapError_eq_ok {ε ε' α : Type} {x : Except ε α} {f : ε → ε'} {a : α} :
    x.mapError f = .ok a ↔ x = .ok a := by
  cases x with
  | error e => exact ⟨fun h => (by cases h), fun h => (by cases h)⟩
  | ok b => exact ⟨fun h => (by cases h; rfl), fun h => (by cases h; rfl)⟩

namespace Property

theorem made_of_resolveType {r : Registry} {label : PropertyLabel} {options : PropertyOptions}
    {type : TypeHandle} {s : PropertySpec} (h : resolveType r label options type = .ok s) :
    s.Made := by
  have hobject (h : (do
      rejectBounds label.name options
      if options.default.isSome then .error (.invalidOption label.name "default")
      else return .ofKind label (.object type) : Except ResolveError PropertySpec) = .ok s) :
      s.Made := by
    obtain ⟨-, -, h⟩ := bind_eq_ok.mp h
    split at h
    · cases h
    · cases h
      exact .object _ _
  unfold resolveType at h
  split at h
  · cases h
  · split at h
    · exact hobject h
    · exact hobject h
    · simp only [bind_eq_ok] at h
      obtain ⟨-, -, default, -, h⟩ := h
      split at h
      · cases h
        exact .enumeration _ _ _
      · cases h

end Property

open Property in
/-- Every declaration that can be completed yields a descriptor that a constructor makes. -/
theorem Property.made_of_resolve {r : Registry} {name : String} {tag : TypeTag}
    {options : PropertyOptions} {s : PropertySpec}
    (h : Property.resolve r name tag options = .ok s) : s.Made := by
  unfold Property.resolve at h
  extract_lets label at h
  cases tag with
  | string =>
      simp only [bind_eq_ok] at h
      obtain ⟨-, -, h⟩ := h
      split at h
      · cases h
        exact .string _ _
      · cases h
        exact .string _ _
      · cases h
  | bool =>
      simp only [bind_eq_ok] at h
      obtain ⟨-, -, h⟩ := h
      split at h
      · cases h
        exact .bool _ _
      · cases h
        exact .bool _ _
      · cases h
  | uint =>
      simp only [bind_eq_ok] at h
      obtain ⟨⟨min, max, default⟩, -, h⟩ := h
      exact .uint (mapError_eq_ok.mp h)
  | int =>
      simp only [bind_eq_ok] at h
      obtain ⟨⟨min, max, default⟩, -, h⟩ := h
      exact .int (mapError_eq_ok.mp h)
  | double =>
      simp only [bind_eq_ok] at h
      obtain ⟨⟨min, max, default⟩, -, h⟩ := h
      exact .double (mapError_eq_ok.mp h)
  | type handle => exact made_of_resolveType h
  | named typeName =>
      dsimp only at h
      split at h
      · exact made_of_resolveType h
      · cases h

/-! ## Builders and classes -/

/-- The builders that declarations lead to. -/
inductive ClassBuilder.Made : ClassBuilder β → Prop
  /-- A new builder has no properties. -/
  | new {b : ClassBuilder β} (hp : b.properties = []) (hm : b.manualProperties = []) : Made b
  | stored {b b' : ClassBuilder β} (h : Made b) {r : Registry} {name : String} {tag : TypeTag}
      {options : PropertyOptions} {notify : Option NotifyPolicy}
      {equality : Option ObjectEquality} {effect : Option β}
      (hb : b.stored r name tag options notify equality effect = .ok b') : Made b'
  | computed {b b' : ClassBuilder β} (h : Made b) {r : Registry} {name : String} {tag : TypeTag}
      {options : PropertyOptions} {backingField : Option String} {getter : β}
      (hb : b.computed r name tag options backingField getter = .ok b') : Made b'
  | manual {b : ClassBuilder β} (h : Made b) {s : PropertySpec} (hs : s.Made) : Made (b.manual s)
  /-- Anything else that is declared has nothing to do with properties. -/
  | declares {b b' : ClassBuilder β} (h : Made b) (hp : b'.properties = b.properties)
      (hm : b'.manualProperties = b.manualProperties) : Made b'

/-- The classes that finalizing builders leads to. -/
inductive Class.Built : Class β → Prop
  | finalize {b : ClassBuilder β} (hb : b.Made)
      (hparent : ∀ parent, b.parent = some (.declared parent) → Built parent)
      {r r' : Registry} {c : Class β} (hc : b.finalize r = .ok (r', c)) : Built c

/-- Every property of a class is filed under its declared name, and its descriptor is a made one. -/
def Class.Filed (c : Class β) : Prop :=
  ∀ level ∈ c.levels, ∀ name entry, level.properties.find? name = some entry →
    entry.spec.name = name ∧ entry.spec.Made

theorem NameTable.mem_ofList {α : Type} {entries : List (String × α)} {entry : String × α}
    (h : entry ∈ (ofList entries).entries) : entry ∈ entries := by
  have hfold : ∀ (entries : List (String × α)) (t : NameTable α),
      entry ∈ (entries.foldl (fun t first => t.insert first.1 first.2) t).entries →
        entry ∈ entries ∨ entry ∈ t.entries := by
    intro entries
    induction entries with
    | nil => exact fun t h => .inr h
    | cons first rest ih =>
        intro t h
        rcases ih _ h with hrest | hinsert
        · exact .inl (List.mem_cons_of_mem _ hrest)
        · rcases mem_of_mem_insertEntry hinsert with rfl | hold
          · exact .inl List.mem_cons_self
          · exact .inr hold
  rcases hfold entries empty h with hmem | hmem
  · exact hmem
  · cases hmem

namespace ClassBuilder

theorem made_of_resolve {b : ClassBuilder β} {r : Registry} {name : String} {tag : TypeTag}
    {options : PropertyOptions} {s : PropertySpec} (h : b.resolve r name tag options = .ok s) :
    s.Made :=
  Property.made_of_resolve (mapError_eq_ok.mp h)

/-- All descriptors in a made builder are made. -/
theorem Made.specs {b : ClassBuilder β} (h : b.Made) :
    (∀ entry ∈ b.properties, entry.spec.Made) ∧ ∀ s ∈ b.manualProperties, s.Made := by
  induction h with
  | new hp hm =>
      rw [hp, hm]
      exact ⟨fun _ h => (by cases h), fun _ h => (by cases h)⟩
  | stored h hb ih =>
      obtain ⟨spec, hspec, hb⟩ := bind_eq_ok.mp hb
      cases hb
      exact ⟨List.forall_mem_append.mpr ⟨ih.1,
        List.forall_mem_singleton.mpr (made_of_resolve hspec)⟩, ih.2⟩
  | computed h hb ih =>
      unfold ClassBuilder.computed at hb
      split at hb
      · cases hb
      · obtain ⟨spec, hspec, hb⟩ := bind_eq_ok.mp hb
        cases hb
        exact ⟨List.forall_mem_append.mpr ⟨ih.1,
          List.forall_mem_singleton.mpr (made_of_resolve hspec)⟩, ih.2⟩
  | manual h hs ih =>
      exact ⟨ih.1, List.forall_mem_append.mpr ⟨ih.2, List.forall_mem_singleton.mpr hs⟩⟩
  | declares _ hp hm ih =>
      rw [hp, hm]
      exact ih

/-- What holds of all descriptors in a builder holds of what the level of the class lists. -/
theorem of_find?_propertyEntries {b : ClassBuilder β} {P : PropertySpec → Prop}
    (h : (∀ entry ∈ b.properties, P entry.spec) ∧ ∀ s ∈ b.manualProperties, P s) {name : String}
    {entry : PropertyEntry β} (hfind : b.propertyEntries.find? name = some entry) :
    entry.spec.name = name ∧ P entry.spec := by
  have hmem := NameTable.mem_ofList (NameTable.mem_of_find? hfind)
  obtain ⟨e, he, heq⟩ := List.mem_map.mp hmem
  obtain ⟨rfl, rfl⟩ := Prod.mk.inj heq
  refine ⟨rfl, ?_⟩
  rcases List.mem_append.mp he with hresolved | hmanual
  · exact h.1 e hresolved
  · obtain ⟨s, hs, rfl⟩ := List.mem_map.mp hmanual
    exact h.2 s hs

/-- A finalized builder adds its own level to those of its parent. -/
theorem levels_of_finalize {b : ClassBuilder β} {r r' : Registry} {c : Class β}
    (h : b.finalize r = .ok (r', c)) :
    c.own.properties = b.propertyEntries ∧ c.inherited = b.inheritedLevels := by
  unfold finalize at h
  cases hregister : r.registerClass (b.registration r) with
  | error e =>
      simp only [hregister] at h
      cases h
  | ok registered =>
      simp only [hregister] at h
      cases h
      exact ⟨rfl, rfl⟩

/-- A level of a finalized class is that of its builder, or one of its parent. -/
theorem mem_levels_of_finalize {b : ClassBuilder β} {r r' : Registry} {c : Class β}
    (h : b.finalize r = .ok (r', c)) {level : ClassLevel β} (hlevel : level ∈ c.levels) :
    level.properties = b.propertyEntries ∨
      ∃ parent, b.parent = some (.declared parent) ∧ level ∈ parent.levels := by
  obtain ⟨hown, hinherited⟩ := levels_of_finalize h
  rcases List.mem_cons.mp hlevel with rfl | hlevel
  · exact .inl hown
  · rw [hinherited] at hlevel
    unfold inheritedLevels at hlevel
    split at hlevel
    · next parent hp => exact .inr ⟨parent, hp, hlevel⟩
    · cases hlevel

end ClassBuilder

namespace Class

theorem Built.filed {c : Class β} (h : c.Built) : c.Filed := by
  induction h with
  | @finalize b hb hparent r r' c hc ih =>
      intro level hlevel name entry hfind
      rcases ClassBuilder.mem_levels_of_finalize hc hlevel with hown | ⟨parent, hp, hlevel⟩
      · rw [hown] at hfind
        exact ClassBuilder.of_find?_propertyEntries hb.specs hfind
      · exact ih parent hp level hlevel name entry hfind

end Class

theorem Name.respell_respell {f g h : Char → Char} (hfg : ∀ c, f (g c) = h c) (name : String) :
    (name.map g).map f = name.map h := by
  apply String.toList_injective
  simp only [String.toList_map, List.map_map]
  exact List.map_congr_left fun c _ => hfg c

theorem Name.underscored_underscored (name : String) :
    Name.underscored (Name.underscored name) = Name.underscored name :=
  Name.respell_respell (fun c => by split <;> simp_all) name

namespace Class

/-- What is filed under a spelling of a name is filed under a name that the underscored spelling
does not change, or under the name itself. -/
theorem findSpelling_eq_some {α : Type} {table : NameTable α} {name : String} {a : α}
    (h : ClassLevel.findSpelling table name = some a) :
    table.find? name = some a ∨
      table.find? name = none ∧ table.find? (Name.underscored name) = some a := by
  unfold ClassLevel.findSpelling at h
  cases hname : table.find? name with
  | some b =>
      rw [hname] at h
      exact .inl h
  | none =>
      rw [hname] at h
      exact .inr ⟨rfl, h⟩

theorem findSpelling_underscored {α : Type} {table : NameTable α} {name : String}
    (h : ClassLevel.findSpelling table name = none) :
    ClassLevel.findSpelling table (Name.underscored name) = none := by
  unfold ClassLevel.findSpelling at h ⊢
  rw [Option.or_eq_none_iff] at h ⊢
  rw [Name.underscored_underscored]
  exact ⟨h.2, h.2⟩

theorem findSpelling_of_find? {α : Type} {table : NameTable α} {name : String} {a : α}
    (h : table.find? name = some a) : ClassLevel.findSpelling table name = some a := by
  unfold ClassLevel.findSpelling
  rw [h]
  rfl

/-- A property that some level knows by a spelling is declared under that spelling, or else under
the underscored one, by which the levels above do not know another. -/
theorem declared_of_findSome? {levels : List (ClassLevel β)}
    (h : ∀ level ∈ levels, ∀ name entry, level.properties.find? name = some entry →
      entry.spec.name = name ∧ entry.spec.Made) {name : String} {entry : PropertyEntry β}
    (hfind : (levels.findSome? fun level => ClassLevel.findSpelling level.properties name) =
      some entry) :
    entry.spec.Made ∧ (entry.spec.name = name ∨ entry.spec.name = Name.underscored name ∧
      (levels.findSome? fun level =>
        ClassLevel.findSpelling level.properties (Name.underscored name)) = some entry) := by
  induction levels with
  | nil => cases hfind
  | cons level levels ih =>
      rw [List.findSome?_cons] at hfind ⊢
      cases hspelling : ClassLevel.findSpelling level.properties name with
      | some found =>
          -- the first level that knows the spelling decides
          rw [hspelling] at hfind
          obtain rfl := Option.some.inj hfind
          rcases findSpelling_eq_some hspelling with hfound | ⟨-, hfound⟩
          · obtain ⟨hname, hmade⟩ := h level List.mem_cons_self _ _ hfound
            exact ⟨hmade, .inl hname⟩
          · obtain ⟨hname, hmade⟩ := h level List.mem_cons_self _ _ hfound
            rw [findSpelling_of_find? hfound]
            exact ⟨hmade, .inr ⟨hname, rfl⟩⟩
      | none =>
          -- a level that does not know the spelling does not know the underscored one either
          rw [hspelling] at hfind
          rw [findSpelling_underscored hspelling]
          exact ih (fun l hl => h l (List.mem_cons_of_mem _ hl)) hfind

/-- **A property is found under its declared name**, whatever spelling it was found under. -/
theorem Filed.findProperty?_name {c : Class β} (h : c.Filed) {name : String}
    {entry : PropertyEntry β} (hfind : c.findProperty? name = some entry) :
    c.findProperty? entry.spec.name = some entry ∧ entry.spec.Made := by
  obtain ⟨hmade, hname | ⟨hname, hunderscored⟩⟩ := declared_of_findSome? h hfind
  · rw [hname]
    exact ⟨hfind, hmade⟩
  · rw [hname]
    exact ⟨hunderscored, hmade⟩

end Class

end ObjectSystem
