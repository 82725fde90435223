import Mathlib.Data.List.Induction
import ObjectSystem.Proofs.Ancestry
import ObjectSystem.Proofs.Spellings

/-!
# Redeclared properties

A builder collects resolved properties and ready-made descriptors in two lists and merges them when
it is finalized. What a class has in the end is told here by the *history* of its builder, the
declarations of properties in the order in which they were made (`ClassBuilder.History`):

* each declared name has one own property (`ClassBuilder.History.nodup_names`, `mem_names`);
* it is what the *standing* declaration of the name says (`History.find?_propertyEntries`): the last
  ready-made descriptor if the name has one, else the last declaration;
* the list of own properties, the lookup by name and what the registry was told agree
  (`properties_of_redeclarations`).

So the last declaration of a name stands unless a descriptor was handed over ready-made before it.
-/

namespace ObjectSystem

variable {β : Type}

/-! ## Tables from lists -/

namespace NameTable

variable {α : Type}

theorem ofList_concat (entries : List (String × α)) (name : String) (value : α) :
    ofList (entries ++ [(name, value)]) = (ofList entries).insert name value := by
  unfold ofList
  rw [List.foldl_append]
  rfl

/-- Of the entries of one name the last is found. -/
theorem find?_ofList (entries : List (String × α)) (name : String) :
    (ofList entries).find? name = ((entries.filter (·.1 = name)).getLast?).map (·.2) := by
  induction entries using List.reverseRecOn with
  | nil => rfl
  | append_singleton entries entry ih =>
    obtain ⟨key, value⟩ := entry
    rw [ofList_concat, find?_insert, List.filter_append]
    by_cases hkey : key = name
    · rw [if_pos hkey.symm]
      simp [hkey]
    · rw [if_neg (Ne.symm hkey), ih]
      simp [hkey]

/-- In a sorted table no name comes twice. -/
theorem Sorted.nodup_names {t : NameTable α} (h : t.Sorted) : t.names.Nodup := by
  refine List.pairwise_map.mpr (List.Pairwise.imp (fun {a b} hlt heq => ?_) h)
  exact String.lt_irrefl _ (heq ▸ hlt)

end NameTable

/-! ## Names of descriptors -/

theorem PropertySpec.name_of_uint {label : PropertyLabel} {min max default : UInt32}
    {s : PropertySpec} (h : PropertySpec.uint label min max default = .ok s) :
    s.name = label.name := by
  unfold PropertySpec.uint at h
  split at h <;> cases h
  rfl

theorem PropertySpec.name_of_int {label : PropertyLabel} {min max default : Int32}
    {s : PropertySpec} (h : PropertySpec.int label min max default = .ok s) :
    s.name = label.name := by
  unfold PropertySpec.int at h
  split at h <;> cases h
  rfl

theorem PropertySpec.name_of_double {label : PropertyLabel} {min max default : Float}
    {s : PropertySpec} (h : PropertySpec.double label min max default = .ok s) :
    s.name = label.name := by
  unfold PropertySpec.double at h
  split at h <;> cases h
  rfl

namespace Property

theorem name_of_resolveType {r : Registry} {label : PropertyLabel} {options : PropertyOptions}
    {type : TypeHandle} {s : PropertySpec} (h : resolveType r label options type = .ok s) :
    s.name = label.name := by
  have hobject (h : (do
      rejectBounds label.name options
      if options.default.isSome then .error (.invalidOption label.name "default")
      else return .ofKind label (.object type) : Except ResolveError PropertySpec) = .ok s) :
      s.name = label.name := by
    obtain ⟨-, -, h⟩ := bind_eq_ok.mp h
    split at h <;> cases h
    rfl
  unfold resolveType at h
  split at h
  · cases h
  · split at h
    · exact hobject h
    · exact hobject h
    · simp only [bind_eq_ok] at h
      obtain ⟨-, -, default, -, h⟩ := h
      split at h <;> cases h
      rfl

/-- A completed declaration bears the name that was declared. -/
theorem name_of_resolve {r : Registry} {name : String} {tag : TypeTag} {options : PropertyOptions}
    {s : PropertySpec} (h : resolve r name tag options = .ok s) : s.name = name := by
  unfold resolve at h
  extract_lets label at h
  cases tag with
  | string =>
    obtain ⟨-, -, h⟩ := bind_eq_ok.mp h
    split at h <;> cases h <;> rfl
  | bool =>
    obtain ⟨-, -, h⟩ := bind_eq_ok.mp h
    split at h <;> cases h <;> rfl
  | uint =>
    obtain ⟨⟨min, max, default⟩, -, h⟩ := bind_eq_ok.mp h
    exact PropertySpec.name_of_uint (mapError_eq_ok.mp h)
  | int =>
    obtain ⟨⟨min, max, default⟩, -, h⟩ := bind_eq_ok.mp h
    exact PropertySpec.name_of_int (mapError_eq_ok.mp h)
  | double =>
    obtain ⟨⟨min, max, default⟩, -, h⟩ := bind_eq_ok.mp h
    exact PropertySpec.name_of_double (mapError_eq_ok.mp h)
  | type handle => exact name_of_resolveType h
  | named typeName =>
    dsimp only at h
    split at h
    · exact name_of_resolveType h
    · cases h

end Property

/-! ## Histories -/

/-- One declaration of a property: the name, what it declares, and whether the descriptor was
handed over ready-made. -/
structure PropertyDeclaration (β : Type) where
  name : String
  entry : PropertyEntry β
  readyMade : Bool

namespace PropertyDeclaration

/-- The last declaration of a name. -/
def last? (ds : List (PropertyDeclaration β)) (name : String) : Option (PropertyDeclaration β) :=
  (ds.filter (·.name = name)).getLast?

/-- The last descriptor of a name that was handed over ready-made. -/
def lastReadyMade? (ds : List (PropertyDeclaration β)) (name : String) :
    Option (PropertyDeclaration β) :=
  last? (ds.filter (·.readyMade)) name

/-- The declaration of a name that the class goes by: the last one, but a ready-made descriptor
stands above all that is resolved. -/
def standing? (ds : List (PropertyDeclaration β)) (name : String) :
    Option (PropertyDeclaration β) :=
  (lastReadyMade? ds name).or (last? ds name)

theorem of_last? {ds : List (PropertyDeclaration β)} {name : String} {d : PropertyDeclaration β}
    (h : last? ds name = some d) : d ∈ ds ∧ d.name = name := by
  have hmem := List.mem_of_getLast? h
  rw [List.mem_filter, decide_eq_true_eq] at hmem
  exact hmem

theorem of_lastReadyMade? {ds : List (PropertyDeclaration β)} {name : String}
    {d : PropertyDeclaration β} (h : lastReadyMade? ds name = some d) :
    d ∈ ds ∧ d.name = name ∧ d.readyMade = true := by
  obtain ⟨hmem, hname⟩ := of_last? h
  obtain ⟨hmem, hready⟩ := List.mem_filter.mp hmem
  exact ⟨hmem, hname, hready⟩

theorem last?_isSome {ds : List (PropertyDeclaration β)} {name : String} :
    (last? ds name).isSome = true ↔ ∃ d ∈ ds, d.name = name := by
  constructor
  · intro h
    obtain ⟨d, hd⟩ := Option.isSome_iff_exists.mp h
    exact ⟨d, of_last? hd⟩
  · rintro ⟨d, hd, hname⟩
    unfold last?
    rw [Option.isSome_iff_ne_none, ne_eq, List.getLast?_eq_none_iff]
    exact List.ne_nil_of_mem (List.mem_filter.mpr ⟨hd, by simpa using hname⟩)

theorem standing?_of_readyMade {ds : List (PropertyDeclaration β)} {name : String}
    {d : PropertyDeclaration β} (h : lastReadyMade? ds name = some d) :
    standing? ds name = some d := by
  rw [standing?, h, Option.some_or]

theorem standing?_of_resolved {ds : List (PropertyDeclaration β)} {name : String}
    (h : lastReadyMade? ds name = none) : standing? ds name = last? ds name := by
  rw [standing?, h, Option.none_or]

/-- Some declaration of each declared name stands. -/
theorem standing?_isSome {ds : List (PropertyDeclaration β)} {name : String} :
    (standing? ds name).isSome = true ↔ ∃ d ∈ ds, d.name = name := by
  unfold standing?
  rw [Option.isSome_or, Bool.or_eq_true, last?_isSome, or_iff_right_iff_imp]
  intro h
  obtain ⟨d, hd⟩ := Option.isSome_iff_exists.mp h
  obtain ⟨hmem, hname, -⟩ := of_lastReadyMade? hd
  exact ⟨d, hmem, hname⟩

/-- What stands is found in two passes, one for each list of a builder. -/
theorem standing?_eq (ds : List (PropertyDeclaration β)) (name : String) :
    standing? ds name =
      (lastReadyMade? ds name).or (last? (ds.filter (!·.readyMade)) name) := by
  cases hready : lastReadyMade? ds name with
  | some d => rw [standing?_of_readyMade hready, Option.some_or]
  | none =>
    -- without a ready-made descriptor all declarations of the name are resolved ones
    have hnone : ∀ d ∈ ds, d.name = name → d.readyMade = false := by
      intro d hd hname
      by_contra hne
      have hsome : (lastReadyMade? ds name).isSome = true :=
        last?_isSome.mpr ⟨d, List.mem_filter.mpr ⟨hd, by simpa using hne⟩, hname⟩
      rw [hready] at hsome
      cases hsome
    rw [standing?_of_resolved hready, Option.none_or]
    unfold last?
    rw [List.filter_filter]
    refine congrArg List.getLast? (List.filter_congr fun d hd => ?_)
    by_cases hname : d.name = name
    · simp [hname, hnone d hd hname]
    · simp [hname]

end PropertyDeclaration

open PropertyDeclaration

namespace ClassBuilder

/-- The builders that declarations lead to, with the declarations of properties among them in
order. -/
inductive History : List (PropertyDeclaration β) → ClassBuilder β → Prop
  /-- A new builder has no properties. -/
  | new {b : ClassBuilder β} (hp : b.properties = []) (hm : b.manualProperties = []) : History [] b
  | stored {ds : List (PropertyDeclaration β)} {b b' : ClassBuilder β} (h : History ds b)
      {r : Registry} {name : String} {tag : TypeTag} {options : PropertyOptions}
      {notify : Option NotifyPolicy} {equality : Option ObjectEquality} {effect : Option β}
      {spec : PropertySpec} (hspec : Property.resolve r name tag options = .ok spec)
      (hb : b.stored r name tag options notify equality effect = .ok b') :
      History (ds ++ [⟨name, ⟨spec, .stored notify equality effect⟩, false⟩]) b'
  | computed {ds : List (PropertyDeclaration β)} {b b' : ClassBuilder β} (h : History ds b)
      {r : Registry} {name : String} {tag : TypeTag} {options : PropertyOptions}
      {backingField : Option String} {getter : β}
      {spec : PropertySpec} (hspec : Property.resolve r name tag options = .ok spec)
      (hb : b.computed r name tag options backingField getter = .ok b') :
      History (ds ++ [⟨name, ⟨spec, .computed getter backingField⟩, false⟩]) b'
  /-- A ready-made descriptor behaves like a stored property with neither policy nor effect. -/
  | manual {ds : List (PropertyDeclaration β)} {b : ClassBuilder β} (h : History ds b)
      (spec : PropertySpec) :
      History (ds ++ [⟨spec.name, ⟨spec, .stored none none none⟩, true⟩]) (b.manual spec)
  /-- Anything else that is declared has nothing to do with properties. -/
  | declares {ds : List (PropertyDeclaration β)} {b b' : ClassBuilder β} (h : History ds b)
      (hp : b'.properties = b.properties) (hm : b'.manualProperties = b.manualProperties) :
      History ds b'

theorem properties_of_stored {b b' : ClassBuilder β} {r : Registry} {name : String} {tag : TypeTag}
    {options : PropertyOptions} {notify : Option NotifyPolicy}
    {equality : Option ObjectEquality} {effect : Option β} {spec : PropertySpec}
    (hspec : Property.resolve r name tag options = .ok spec)
    (hb : b.stored r name tag options notify equality effect = .ok b') :
    b'.properties = b.properties ++ [⟨spec, .stored notify equality effect⟩] ∧
      b'.manualProperties = b.manualProperties := by
  obtain ⟨spec', hspec', hb⟩ := bind_eq_ok.mp hb
  cases hspec.symm.trans (mapError_eq_ok.mp hspec')
  cases hb
  exact ⟨rfl, rfl⟩

theorem properties_of_computed {b b' : ClassBuilder β} {r : Registry} {name : String}
    {tag : TypeTag} {options : PropertyOptions} {backingField : Option String} {getter : β}
    {spec : PropertySpec} (hspec : Property.resolve r name tag options = .ok spec)
    (hb : b.computed r name tag options backingField getter = .ok b') :
    b'.properties = b.properties ++ [⟨spec, .computed getter backingField⟩] ∧
      b'.manualProperties = b.manualProperties := by
  unfold ClassBuilder.computed at hb
  split at hb
  · cases hb
  · obtain ⟨spec', hspec', hb⟩ := bind_eq_ok.mp hb
    cases hspec.symm.trans (mapError_eq_ok.mp hspec')
    cases hb
    exact ⟨rfl, rfl⟩

namespace History

variable {ds : List (PropertyDeclaration β)} {b : ClassBuilder β}

/-- Every declaration is for the name in its descriptor. -/
theorem name_eq (h : b.History ds) : ∀ d ∈ ds, d.entry.spec.name = d.name := by
  induction h with
  | new => exact fun _ hd => (by cases hd)
  | stored _ hspec _ ih =>
    exact List.forall_mem_append.mpr
      ⟨ih, List.forall_mem_singleton.mpr (Property.name_of_resolve hspec)⟩
  | computed _ hspec _ ih =>
    exact List.forall_mem_append.mpr
      ⟨ih, List.forall_mem_singleton.mpr (Property.name_of_resolve hspec)⟩
  | manual _ spec ih =>
    exact List.forall_mem_append.mpr ⟨ih, List.forall_mem_singleton.mpr rfl⟩
  | declares _ _ _ ih => exact ih

/-- The two lists of a builder are the two kinds of declarations. -/
theorem lists (h : b.History ds) :
    b.properties = (ds.filter (!·.readyMade)).map (·.entry) ∧
      (b.manualProperties.map fun spec => (⟨spec, .stored none none none⟩ : PropertyEntry β)) =
        (ds.filter (·.readyMade)).map (·.entry) := by
  induction h with
  | new hp hm =>
    rw [hp, hm]
    exact ⟨rfl, rfl⟩
  | stored _ hspec hb ih =>
    obtain ⟨hp, hm⟩ := properties_of_stored hspec hb
    rw [hp, hm, ih.1, ih.2]
    simp
  | computed _ hspec hb ih =>
    obtain ⟨hp, hm⟩ := properties_of_computed hspec hb
    rw [hp, hm, ih.1, ih.2]
    simp
  | manual _ spec ih =>
    unfold ClassBuilder.manual
    rw [List.map_append, ih.1, ih.2]
    simp
  | declares _ hp hm ih =>
    rw [hp, hm]
    exact ih

/-- **What stands is what is filed.** -/
theorem find?_propertyEntries (h : b.History ds) (name : String) :
    b.propertyEntries.find? name = (standing? ds name).map (·.entry) := by
  have hlast {es : List (PropertyDeclaration β)} (hes : ∀ d ∈ es, d ∈ ds) :
      (((es.map fun d => (d.entry.spec.name, d.entry)).filter (·.1 = name)).getLast?).map (·.2) =
        (last? es name).map (·.entry) := by
    unfold last?
    rw [List.filter_map, List.getLast?_map, Option.map_map]
    refine congrArg (Option.map _) (congrArg List.getLast? (List.filter_congr fun d hd => ?_))
    rw [Function.comp_apply, h.name_eq d (hes d hd)]
  obtain ⟨hp, hm⟩ := h.lists
  unfold propertyEntries
  dsimp only
  rw [hp, hm, NameTable.find?_ofList, ← List.map_append, List.map_map, standing?_eq,
    List.map_append, List.filter_append, List.getLast?_append, Option.map_or, Option.map_or]
  exact congr_arg₂ Option.or (hlast fun d hd => List.mem_of_mem_filter hd)
    (hlast fun d hd => List.mem_of_mem_filter hd)

/-- A name has a property exactly if it was declared. -/
theorem mem_names (h : b.History ds) {name : String} :
    name ∈ b.propertyEntries.names ↔ ∃ d ∈ ds, d.name = name := by
  rw [← standing?_isSome]
  constructor
  · intro hname
    obtain ⟨⟨key, entry⟩, hentry, rfl⟩ := List.mem_map.mp hname
    have hfind := (NameTable.sorted_ofList _).find?_eq_some.mpr hentry
    rw [← Option.isSome_map (f := PropertyDeclaration.entry), ← h.find?_propertyEntries]
    exact Option.isSome_iff_exists.mpr ⟨entry, hfind⟩
  · intro hstanding
    obtain ⟨d, hd⟩ := Option.isSome_iff_exists.mp hstanding
    have hfind := h.find?_propertyEntries name
    rw [hd] at hfind
    exact List.mem_map.mpr ⟨_, NameTable.mem_of_find? hfind, rfl⟩

/-- The properties are filed under the names of their descriptors. -/
theorem names_eq (h : b.History ds) :
    b.propertyEntries.names = b.propertyEntries.values.map (·.spec.name) := by
  unfold NameTable.names NameTable.values
  rw [List.map_map]
  refine List.map_congr_left fun ⟨name, entry⟩ hentry => ?_
  have hfind := (NameTable.sorted_ofList _).find?_eq_some.mpr hentry
  have hstanding : (standing? ds name).map (·.entry) = some entry :=
    (h.find?_propertyEntries name).symm.trans hfind
  obtain ⟨d, hd, rfl⟩ := Option.map_eq_some_iff.mp hstanding
  have hd : d ∈ ds ∧ d.name = name := by
    rcases Option.or_eq_some_iff.mp hd with hready | ⟨-, hlast⟩
    · exact ⟨(of_lastReadyMade? hready).1, (of_lastReadyMade? hready).2.1⟩
    · exact of_last? hlast
  exact ((h.name_eq d hd.1).trans hd.2).symm

end History

end ClassBuilder

/-! ## Registrations -/

/-- What a class was registered with can be looked up under its type. -/
theorem Registry.registration?_of_registerClass {r r' : Registry} {c : ClassRegistration}
    {type : TypeHandle} (h : r.registerClass c = .ok (r', type)) :
    r'.registration? type = some c := by
  have hpush (info : TypeInfo) (hinfo : info.registration = some c) :
      (r.push info).1.registration? (r.push info).2 = some c := by
    unfold Registry.push Registry.registration? Registry.info?
    dsimp only
    rw [List.getElem?_concat_length]
    exact hinfo
  obtain ⟨⟨⟩, -, h⟩ := bind_eq_ok.mp h
  split at h
  · cases h
  · split at h
    · cases h
    · split at h
      · cases h
      · split at h
        · cases h
        · obtain ⟨rfl, rfl⟩ := Prod.mk.inj (Except.ok.inj h)
          exact hpush _ rfl

theorem ClassBuilder.registration?_of_finalize {b : ClassBuilder β} {r r' : Registry} {c : Class β}
    (h : b.finalize r = .ok (r', c)) : r'.registration? c.handle = some (b.registration r) := by
  obtain ⟨⟨registry, type⟩, hregister, h⟩ := bind_eq_ok.mp h
  cases h
  exact Registry.registration?_of_registerClass (mapError_eq_ok.mp hregister)

/-! ## The law -/

/-- **What redeclared properties come to.** A class has one own property for each declared name.
Descriptor and behaviour are those of the standing declaration of the name, wherever one looks: by
name, in the list of own properties, and in what the registry was told. The last declaration of a
name decides exactly if no other descriptor of the name was handed over ready-made: if one was, the
last of these decides. -/
theorem properties_of_redeclarations {ds : List (PropertyDeclaration β)} {b : ClassBuilder β}
    (h : b.History ds) {r r' : Registry} {c : Class β} (hc : b.finalize r = .ok (r', c)) :
    (c.ownProperties.map (·.name)).Nodup ∧
      (∀ name, name ∈ c.ownProperties.map (·.name) ↔ ∃ d ∈ ds, d.name = name) ∧
      (∀ name d, standing? ds name = some d →
        c.findProperty? name = some d.entry ∧ c.propertySpec? name = some d.entry.spec ∧
        d.entry.spec ∈ c.ownProperties) ∧
      (∃ registration, r'.registration? c.handle = some registration ∧
        registration.properties = c.ownProperties) ∧
      ∀ name d, last? ds name = some d →
        (c.findProperty? name = some d.entry ↔
          ∀ m, lastReadyMade? ds name = some m → m.entry = d.entry) := by
  obtain ⟨hown, -⟩ := ClassBuilder.levels_of_finalize hc
  have hnames : c.ownProperties.map (·.name) = b.propertyEntries.names := by
    unfold Class.ownProperties
    rw [hown, List.map_map]
    exact h.names_eq.symm
  have hfind (name : String) (d : PropertyDeclaration β) (hd : standing? ds name = some d) :
      c.own.properties.find? name = some d.entry := by
    rw [hown, h.find?_propertyEntries, hd]
    rfl
  have hlookup (name : String) (d : PropertyDeclaration β) (hd : standing? ds name = some d) :
      c.findProperty? name = some d.entry := by
    unfold Class.findProperty? Class.levels ClassLevel.findSpelling
    rw [List.findSome?_cons, hfind name d hd]
    rfl
  refine ⟨?_, ?_, fun name d hd => ⟨hlookup name d hd, ?_, ?_⟩, ?_, fun name d hlast => ?_⟩
  · rw [hnames]
    exact (NameTable.sorted_ofList _).nodup_names
  · intro name
    rw [hnames]
    exact h.mem_names
  · unfold Class.propertySpec?
    rw [hlookup name d hd]
    rfl
  · have hmem := NameTable.mem_of_find? (hfind name d hd)
    exact List.mem_map.mpr ⟨d.entry, List.mem_map.mpr ⟨_, hmem, rfl⟩, rfl⟩
  · refine ⟨b.registration r, ClassBuilder.registration?_of_finalize hc, ?_⟩
    unfold Class.ownProperties
    rw [hown]
    rfl
  · cases hready : lastReadyMade? ds name with
    | none =>
      have hstanding := (standing?_of_resolved hready).trans hlast
      exact iff_of_true (hlookup name d hstanding) fun m hm => (by cases hm)
    | some m =>
      rw [hlookup name m (standing?_of_readyMade hready)]
      constructor
      · rintro heq m' ⟨⟩
        exact Option.some.inj heq
      · intro hall
        exact congrArg some (hall m rfl)

/-- A descriptor that a builder can be handed. -/
def widthSpec : PropertySpec :=
  .ofKind ⟨"width", "Width", "Width of the slider", { readable := true }⟩ (.uint 0 9 3)

/-- A slider declares its size twice, and its width once by a descriptor and then once more. -/
def slider : Except ClassError (ClassBuilder Nat) := do
  let sized ← { className := "Slider" : ClassBuilder Nat }.stored .builtin "size" .string {}
    none none none
  let resized ← sized.computed .builtin "size" .bool {} none 7
  (resized.manual widthSpec).stored .builtin "width" .string {} none none none

def sliderClass : Except ClassError (Registry × Class Nat) :=
  slider.bind (·.finalize .builtin)

theorem slider_history {b : ClassBuilder Nat} (hb : slider = .ok b) :
    ∃ first size width,
      b.History [⟨"size", ⟨first, .stored none none none⟩, false⟩,
        ⟨"size", ⟨size, .computed 7 none⟩, false⟩,
        ⟨"width", ⟨widthSpec, .stored none none none⟩, true⟩,
        ⟨"width", ⟨width, .stored none none none⟩, false⟩] ∧
      Property.resolve .builtin "width" .string {} = .ok width := by
  obtain ⟨sized, hsized, hb⟩ := bind_eq_ok.mp hb
  obtain ⟨resized, hresized, hb⟩ := bind_eq_ok.mp hb
  obtain ⟨first, hfirst, -⟩ := bind_eq_ok.mp hsized
  obtain ⟨width, hwidth, -⟩ := bind_eq_ok.mp hb
  obtain ⟨size, hsize, -⟩ : ∃ size, sized.resolve .builtin "size" .bool {} = .ok size ∧ _ :=
    bind_eq_ok.mp hresized
  have hstored := ClassBuilder.History.stored (.new rfl rfl) (mapError_eq_ok.mp hfirst) hsized
  have hcomputed := hstored.computed (mapError_eq_ok.mp hsize) hresized
  exact ⟨first, size, width,
    (hcomputed.manual widthSpec).stored (mapError_eq_ok.mp hwidth) hb, mapError_eq_ok.mp hwidth⟩

theorem exists_sliderClass : ∃ r c, sliderClass = .ok (r, c) ∧
    c.ownProperties.map (·.name) = ["size", "width"] ∧
    (c.propertySpec? "width").map (·.kind) = some (.uint 0 9 3) := by
  have hfacts : sliderClass.toOption.map (fun result =>
      (result.2.ownProperties.map (·.name), (result.2.propertySpec? "width").map (·.kind))) =
        some (["size", "width"], some (.uint 0 9 3)) := by decide +kernel
  cases hclass : sliderClass with
  | error e =>
    rw [hclass] at hfacts
    cases hfacts
  | ok result =>
    rw [hclass] at hfacts
    obtain ⟨hnames, hkind⟩ := Prod.mk.inj (Option.some.inj hfacts)
    exact ⟨result.1, result.2, rfl, hnames, hkind⟩

/-- The size of a slider is what was declared last, its width what was handed over. -/
theorem properties_of_redeclarations_slider :
    ∃ r c, sliderClass = .ok (r, c) ∧ c.ownProperties.map (·.name) = ["size", "width"] ∧
      (c.findProperty? "size").map (·.behaviour) = some (.computed 7 none) ∧
      c.propertySpec? "width" = some widthSpec := by
  obtain ⟨r, c, hclass, hnames, -⟩ := exists_sliderClass
  obtain ⟨b, hb, hc⟩ := bind_eq_ok.mp hclass
  obtain ⟨first, size, width, hhistory, -⟩ := slider_history hb
  obtain ⟨-, -, hstands, -⟩ := properties_of_redeclarations hhistory hc
  refine ⟨r, c, hclass, hnames, ?_, ?_⟩
  · rw [(hstands "size" _ rfl).1]
    rfl
  · exact (hstands "width" _ rfl).2.1

/-- The last declaration of a name does not always stand. -/
theorem last_declaration_overruled :
    ¬ ∀ (ds : List (PropertyDeclaration Nat)) (b : ClassBuilder Nat), b.History ds →
      ∀ r r' c, b.finalize r = .ok (r', c) →
        ∀ name d, last? ds name = some d → c.propertySpec? name = some d.entry.spec := by
  intro h
  obtain ⟨r, c, hclass, -, hkind⟩ := exists_sliderClass
  obtain ⟨b, hb, hc⟩ := bind_eq_ok.mp hclass
  obtain ⟨first, size, width, hhistory, hwidth⟩ := slider_history hb
  have hlast := h _ b hhistory _ r c hc "width" _ rfl
  -- what was declared last is a text, what is found is a number
  have htext : (Property.resolve .builtin "width" .string {}).toOption.map (·.kind) =
      some (.string "") := by decide +kernel
  rw [hwidth] at htext
  rw [hlast] at hkind
  cases (Option.some.inj htext).symm.trans (Option.some.inj hkind)

end ObjectSystem
