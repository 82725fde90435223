import ObjectSystem.Proofs.Declared
import ObjectSystem.Proofs.Run

/-!
# Spellings of properties

A lookup asks each level, from the most derived one up, for the name as it is spelled and then for
its underscored spelling. So it comes down to two names: the one of them that is declared further
down decides, and the name as it is spelled if both are declared at the same level
(`Class.findProperty?_eq`). The list of a class has what is declared under each name exactly
(`Class.Built.mem_properties`). From these follow

* when a listed property can be reached (`listed_properties_reached`): a property with a hyphen in
  its name is out of reach if a level further down declares its underscored spelling;
* when the name that a change notification carries leads back to the property that changed
  (`notified_name_reaches`).
-/

namespace ObjectSystem

variable {β : Type}

namespace NameTable

variable {α : Type}

/-! ## Sorted tables -/

/-- The entries are sorted by name, and each name has one. -/
def Sorted (t : NameTable α) : Prop :=
  t.entries.Pairwise (·.1 < ·.1)

theorem sorted_empty : (empty : NameTable α).Sorted := .nil

theorem pairwise_insertEntry {name : String} {value : α} {entries : List (String × α)}
    (h : entries.Pairwise (·.1 < ·.1)) : (insertEntry name value entries).Pairwise (·.1 < ·.1) := by
  fun_induction insertEntry name value entries with
  | case1 => exact List.pairwise_singleton _ _
  | case2 old rest =>
    exact List.pairwise_cons.mpr (List.pairwise_cons.mp h)
  | case3 key old rest _ hlt =>
    refine List.pairwise_cons.mpr ⟨List.forall_mem_cons.mpr ⟨hlt, fun entry hentry => ?_⟩, h⟩
    exact String.lt_trans hlt ((List.pairwise_cons.mp h).1 entry hentry)
  | case4 key old rest hne hge ih =>
    obtain ⟨hkey, hrest⟩ := List.pairwise_cons.mp h
    have hlt : key < name := by
      refine Classical.byContradiction fun hnot => hne ?_
      exact String.le_antisymm (String.not_lt.mp hnot) (String.not_lt.mp hge)
    refine List.pairwise_cons.mpr ⟨fun entry hentry => ?_, ih hrest⟩
    rcases mem_of_mem_insertEntry hentry with rfl | hold
    · exact hlt
    · exact hkey entry hold

theorem Sorted.insert {t : NameTable α} (h : t.Sorted) (name : String) (value : α) :
    (t.insert name value).Sorted :=
  pairwise_insertEntry h

theorem Sorted.insertAll {t : NameTable α} (h : t.Sorted) (entries : List (String × α)) :
    (entries.foldl (fun t entry => t.insert entry.1 entry.2) t).Sorted := by
  induction entries generalizing t with
  | nil => exact h
  | cons entry entries ih => exact ih (h.insert entry.1 entry.2)

theorem sorted_ofList (entries : List (String × α)) : (ofList entries).Sorted :=
  sorted_empty.insertAll entries

/-- In a sorted table everything that is listed is found. -/
theorem Sorted.find?_eq_some {t : NameTable α} (h : t.Sorted) {name : String} {value : α} :
    t.find? name = some value ↔ (name, value) ∈ t.entries := by
  refine ⟨mem_of_find?, fun hmem => ?_⟩
  unfold Sorted at h
  unfold find?
  generalize t.entries = entries at h hmem
  induction entries with
  | nil => cases hmem
  | cons entry rest ih =>
    obtain ⟨hfirst, hrest⟩ := List.pairwise_cons.mp h
    rcases List.mem_cons.mp hmem with rfl | hmem
    · rw [List.lookup_cons_self]
    · have hne : name ≠ entry.1 := fun heq => String.lt_irrefl _ (heq ▸ hfirst _ hmem)
      rw [List.lookup_cons, beq_false_of_ne hne]
      exact ih hrest hmem

end NameTable

theorem Name.underscored_canonical (name : String) :
    Name.underscored (Name.canonical name) = Name.underscored name :=
  Name.respell_respell (fun c => by split <;> simp_all) name

namespace Class

/-! ## Exact declarations -/

/-- The most derived declaration of exactly this name. -/
def declared? (c : Class β) (name : String) : Option (PropertyEntry β) :=
  c.levels.findSome? fun level => level.properties.find? name

/-- How far up a name is declared: the number of levels below the most derived one that declares
exactly this name, and of all levels if there is none. -/
def height (c : Class β) (name : String) : Nat :=
  c.levels.findIdx fun level => level.properties.contains name

/-- **Of the two spellings of a name, the one that is declared further down decides.** -/
theorem findProperty?_eq (c : Class β) (name : String) :
    c.findProperty? name =
      if c.height name ≤ c.height (Name.underscored name) then c.declared? name
      else c.declared? (Name.underscored name) := by
  unfold findProperty? declared? height
  induction c.levels with
  | nil => rfl
  | cons level levels ih =>
    rw [List.findSome?_cons, List.findSome?_cons, List.findSome?_cons, List.findIdx_cons,
      List.findIdx_cons]
    have hspelling : ClassLevel.findSpelling level.properties name =
        (level.properties.find? name).or (level.properties.find? (Name.underscored name)) := rfl
    have hcontains (name : String) :
        level.properties.contains name = (level.properties.find? name).isSome := rfl
    rw [hspelling, hcontains, hcontains]
    cases level.properties.find? name with
    | some entry => simp
    | none =>
      cases level.properties.find? (Name.underscored name) with
      | some entry => simp
      | none => simpa using ih

/-- An exact declaration bears its name. -/
theorem Filed.name_of_declared? {c : Class β} (h : c.Filed) {name : String}
    {entry : PropertyEntry β} (hdeclared : c.declared? name = some entry) :
    entry.spec.name = name := by
  obtain ⟨level, hlevel, hfind⟩ := List.exists_of_findSome?_eq_some hdeclared
  exact (h level hlevel name entry hfind).1

/-- A property is found under its own name unless the underscored spelling is declared further
down. -/
theorem Filed.findProperty?_iff {c : Class β} (h : c.Filed) {name : String}
    {entry : PropertyEntry β} (hdeclared : c.declared? name = some entry) :
    c.findProperty? name = some entry ↔ c.height name ≤ c.height (Name.underscored name) := by
  rw [findProperty?_eq]
  split
  · next hle => exact iff_of_true hdeclared hle
  · next hgt =>
    refine iff_of_false (fun hother => hgt ?_) hgt
    -- an entry that is filed under both spellings bears both names
    have hname := (h.name_of_declared? hother).symm.trans (h.name_of_declared? hdeclared)
    exact Nat.le_of_eq (congrArg c.height hname.symm)

/-! ## The list of properties -/

theorem find?_insertLevel {entries : List (String × PropertyEntry β)}
    (h : entries.Pairwise (·.1 < ·.1)) (t : NameTable PropertySpec) (name : String) :
    (entries.foldl (fun t (name, entry) => t.insert name entry.spec) t).find? name =
      ((entries.lookup name).map (·.spec)).or (t.find? name) := by
  induction entries generalizing t with
  | nil => rfl
  | cons first rest ih =>
    obtain ⟨hfirst, hrest⟩ := List.pairwise_cons.mp h
    rw [List.foldl_cons, ih hrest, NameTable.find?_insert, List.lookup_cons]
    by_cases heq : name = first.1
    · -- the name does not come again
      have hnone : rest.lookup name = none := by
        refine List.lookup_eq_none_iff.mpr fun entry hentry => ?_
        rw [bne_iff_ne]
        rintro rfl
        exact String.lt_irrefl _ (heq ▸ hfirst _ hentry)
      rw [hnone, if_pos heq, heq, beq_self_eq_true]
      rfl
    · rw [if_neg heq, beq_false_of_ne heq]

theorem sorted_insertLevel (entries : List (String × PropertyEntry β))
    {t : NameTable PropertySpec} (h : t.Sorted) :
    (entries.foldl (fun t (name, entry) => t.insert name entry.spec) t).Sorted := by
  induction entries generalizing t with
  | nil => exact h
  | cons entry entries ih => exact ih (h.insert _ _)

/-- The table that the list of a class is read from. -/
def listing (levels : List (ClassLevel β)) : NameTable PropertySpec :=
  levels.foldr (fun level table =>
    level.properties.entries.foldl (fun table (name, entry) => table.insert name entry.spec) table)
    .empty

theorem properties_eq (c : Class β) : c.properties = (listing c.levels).values := by
  unfold properties listing rootFirst
  rw [List.foldl_reverse]

theorem sorted_listing (levels : List (ClassLevel β)) : (listing levels).Sorted := by
  induction levels with
  | nil => exact .nil
  | cons level levels ih => exact sorted_insertLevel level.properties.entries ih

theorem find?_listing {levels : List (ClassLevel β)}
    (h : ∀ level ∈ levels, level.properties.Sorted) (name : String) :
    (listing levels).find? name =
      (levels.findSome? fun level => level.properties.find? name).map (·.spec) := by
  induction levels with
  | nil => rfl
  | cons level levels ih =>
    obtain ⟨hlevel, hlevels⟩ := List.forall_mem_cons.mp h
    have hfind := find?_insertLevel hlevel (listing levels) name
    rw [ih hlevels] at hfind
    rw [List.findSome?_cons]
    refine hfind.trans ?_
    unfold NameTable.find?
    cases level.properties.entries.lookup name <;> rfl

/-- Every level of a built class has a sorted table. -/
theorem Built.sorted {c : Class β} (h : c.Built) :
    ∀ level ∈ c.levels, level.properties.Sorted := by
  induction h with
  | @finalize b hb hparent r r' c hc ih =>
    intro level hlevel
    rcases ClassBuilder.mem_levels_of_finalize hc hlevel with hown | ⟨parent, hp, hlevel⟩
    · exact hown ▸ NameTable.sorted_ofList _
    · exact ih parent hp level hlevel

/-- **The list of a class has the most derived declaration of each name**, and nothing else. -/
theorem Built.mem_properties {c : Class β} (h : c.Built) {s : PropertySpec} :
    s ∈ c.properties ↔ ∃ entry, c.declared? s.name = some entry ∧ entry.spec = s := by
  have hfind := find?_listing h.sorted
  rw [properties_eq]
  refine ⟨fun hmem => ?_, fun ⟨entry, hdeclared, hspec⟩ => ?_⟩
  · obtain ⟨⟨name, s'⟩, hentry, rfl⟩ := List.mem_map.mp hmem
    have hlisted := (sorted_listing c.levels).find?_eq_some.mpr hentry
    rw [hfind name] at hlisted
    obtain ⟨entry, hdeclared, rfl⟩ := Option.map_eq_some_iff.mp hlisted
    refine ⟨entry, ?_, rfl⟩
    rw [h.filed.name_of_declared? hdeclared]
    exact hdeclared
  · refine List.mem_map.mpr ⟨(s.name, s), ?_, rfl⟩
    refine (sorted_listing c.levels).find?_eq_some.mp ?_
    rw [hfind s.name]
    exact Option.map_eq_some_iff.mpr ⟨entry, hdeclared, hspec⟩

/-- What a lookup finds is declared under its own name. -/
theorem Built.declared_of_findProperty? {c : Class β} (h : c.Built) {name : String}
    {entry : PropertyEntry β} (hfind : c.findProperty? name = some entry) :
    c.declared? entry.spec.name = some entry := by
  rw [findProperty?_eq] at hfind
  split at hfind
  · rw [h.filed.name_of_declared? hfind]
    exact hfind
  · rw [h.filed.name_of_declared? hfind]
    exact hfind

end Class

/-! ## Listed properties -/

/-- **Which listed properties can be reached.** Whatever a lookup finds is listed. A listed property
is found under its own name unless the underscored spelling of the name is declared at a level
further down; then it is found under no name at all. -/
theorem listed_properties_reached {c : Class β} (h : c.Built) :
    (∀ name s, c.propertySpec? name = some s → s ∈ c.properties) ∧
      ∀ s ∈ c.properties,
        (c.propertySpec? s.name = some s ↔
          c.height s.name ≤ c.height (Name.underscored s.name)) ∧
        ((∃ name, c.propertySpec? name = some s) ↔
          c.height s.name ≤ c.height (Name.underscored s.name)) := by
  refine ⟨fun name s hfound => ?_, fun s hs => ?_⟩
  · obtain ⟨entry, hfind, rfl⟩ := Option.map_eq_some_iff.mp hfound
    exact h.mem_properties.mpr ⟨entry, h.declared_of_findProperty? hfind, rfl⟩
  · obtain ⟨entry, hdeclared, rfl⟩ := h.mem_properties.mp hs
    have hown : c.propertySpec? entry.spec.name = some entry.spec ↔
        c.height entry.spec.name ≤ c.height (Name.underscored entry.spec.name) := by
      rw [← h.filed.findProperty?_iff hdeclared]
      refine ⟨fun hfound => ?_, fun hfind => Option.map_eq_some_iff.mpr ⟨entry, hfind, rfl⟩⟩
      -- what is found bears the name, and so is the declaration of that name
      obtain ⟨other, hfind, hspec⟩ := Option.map_eq_some_iff.mp hfound
      have hother := h.declared_of_findProperty? hfind
      rw [hspec, hdeclared] at hother
      rw [hfind, hother]
    refine ⟨hown, fun ⟨name, hfound⟩ => hown.mp ?_, fun hle => ⟨_, hown.mpr hle⟩⟩
    obtain ⟨other, hfind, hspec⟩ := Option.map_eq_some_iff.mp hfound
    have hname := (h.filed.findProperty?_name hfind).1
    rw [hspec] at hname
    exact Option.map_eq_some_iff.mpr ⟨other, hname, hspec⟩

/-- A lamp has a property with a hyphen in its name. -/
def lamp : Except ClassError (ClassBuilder Nat) :=
  { className := "Lamp" : ClassBuilder Nat }.stored .builtin "switched-on" .bool {} none none none

/-- The registered lamp. -/
def lampClass : Except ClassError (Registry × Class Nat) :=
  lamp.bind (·.finalize .builtin)

/-- A dimmer is a lamp with two more properties: the name of one differs from the inherited one by a
hyphen, that of the other has a hyphen and an underscore. -/
def dimmer (r : Registry) (parent : Class Nat) : Except ClassError (ClassBuilder Nat) := do
  let bare : ClassBuilder Nat := { className := "Dimmer", parent := some (.declared parent) }
  let switched ← bare.stored r "switched_on" .string {} none none none
  switched.stored r "fade-out_time" .uint {} none none none

def dimmerClass : Class Nat :=
  match lampClass.bind fun (r, parent) => (dimmer r parent).bind (·.finalize r) with
  | .ok (_, c) => c
  | .error _ => .simple .empty [] none

theorem ClassBuilder.parent_of_stored {b b' : ClassBuilder β} {r : Registry} {name : String}
    {tag : TypeTag} {options : PropertyOptions} {notify : Option NotifyPolicy}
    {equality : Option ObjectEquality} {effect : Option β}
    (h : b.stored r name tag options notify equality effect = .ok b') : b'.parent = b.parent := by
  obtain ⟨spec, -, hspec⟩ := bind_eq_ok.mp h
  cases hspec
  rfl

theorem dimmerClass_built : dimmerClass.Built := by
  unfold dimmerClass
  split
  · next r c hc =>
    obtain ⟨⟨r₁, parent⟩, hparent, hc⟩ := bind_eq_ok.mp hc
    obtain ⟨b, hb, hfinal⟩ := bind_eq_ok.mp hc
    obtain ⟨switched, hswitched, hb⟩ := bind_eq_ok.mp hb
    refine .finalize (.stored (.stored (.new rfl rfl) hswitched) hb) (fun p hp => ?_) hfinal
    rw [ClassBuilder.parent_of_stored hb, ClassBuilder.parent_of_stored hswitched] at hp
    cases hp
    -- the parent is the lamp
    obtain ⟨base, hbase, hlamp⟩ := bind_eq_ok.mp hparent
    refine .finalize (.stored (.new rfl rfl) hbase) (fun p hp => ?_) hlamp
    rw [ClassBuilder.parent_of_stored hbase] at hp
    cases hp
  · next e he =>
    have hok : (lampClass.bind fun (r, parent) =>
        (dimmer r parent).bind (·.finalize r)).isOk = true := by decide +kernel
    rw [he] at hok
    cases hok

/-- Of the two switches of a dimmer, both are listed and one can be reached. -/
theorem listed_properties_reached_dimmer :
    dimmerClass.properties.map (·.name) = ["fade-out_time", "switched-on", "switched_on"] ∧
      (∀ s ∈ dimmerClass.properties, s.name = "switched_on" →
        dimmerClass.propertySpec? "switched_on" = some s) ∧
      ∀ s ∈ dimmerClass.properties, s.name = "switched-on" →
        ∀ name, dimmerClass.propertySpec? name ≠ some s := by
  have hreached := (listed_properties_reached dimmerClass_built).2
  refine ⟨by decide +kernel, fun s hs hname => ?_, fun s hs hname name hfound => ?_⟩
  · rw [← hname]
    refine (hreached s hs).1.mpr ?_
    rw [hname]
    decide +kernel
  · have hle := (hreached s hs).2.mp ⟨name, hfound⟩
    rw [hname] at hle
    revert hle
    decide +kernel

/-- Not everything that a class lists is found under its own name. -/
theorem listed_property_out_of_reach :
    ¬ ∀ c : Class Nat, c.Built → ∀ s ∈ c.properties, c.propertySpec? s.name = some s := by
  intro h
  obtain ⟨s, hs, hname⟩ : ∃ s ∈ dimmerClass.properties, s.name = "switched-on" :=
    List.mem_map.mp (by decide +kernel)
  have hfound := h dimmerClass dimmerClass_built s hs
  have hother : (dimmerClass.propertySpec? "switched-on").map (·.name) = some "switched_on" := by
    decide +kernel
  rw [← hname, hfound, Option.map_some, hname] at hother
  revert hother
  decide

/-! ## Notified names -/

/-- Whether the canonical spelling of a name leads to what is declared under the name itself: the two
are the same, or the name is underscored and the canonical spelling is not declared at its level or
further down. -/
def Class.Echoes (c : Class β) (name : String) : Prop :=
  Name.canonical name = name ∨
    Name.underscored name = name ∧ c.height name < c.height (Name.canonical name)

theorem Class.Built.findProperty?_canonical_iff {c : Class β} (h : c.Built)
    {p : PropertyEntry β} (hp : c.findProperty? p.spec.name = some p) :
    c.findProperty? p.spec.canonicalName = some p ↔ c.Echoes p.spec.name := by
  have hdeclared := h.declared_of_findProperty? hp
  unfold Echoes PropertySpec.canonicalName
  by_cases hcanonical : Name.canonical p.spec.name = p.spec.name
  · rw [hcanonical]
    exact iff_of_true hp (.inl rfl)
  · have hnot : c.declared? (Name.canonical p.spec.name) ≠ some p := fun hother =>
      hcanonical (h.filed.name_of_declared? hother).symm
    rw [findProperty?_eq, Name.underscored_canonical]
    by_cases hunderscored : Name.underscored p.spec.name = p.spec.name
    · rw [hunderscored]
      split
      · next hle =>
        refine iff_of_false hnot ?_
        rintro (heq | ⟨-, hlt⟩)
        · exact hcanonical heq
        · exact Nat.not_lt.mpr hle hlt
      · next hgt => exact iff_of_true hdeclared (.inr ⟨rfl, Nat.not_le.mp hgt⟩)
    · -- the name has a hyphen and an underscore, and is neither of its spellings
      have hnone : c.declared? (Name.underscored p.spec.name) ≠ some p := fun hother =>
        hunderscored (h.filed.name_of_declared? hother).symm
      refine iff_of_false (by split <;> assumption) ?_
      rintro (heq | ⟨heq, -⟩)
      · exact hcanonical heq
      · exact hunderscored heq

/-- A frame of a write, whose report is one under this name. -/
def Frame.Announces (name : String) : Frame β → Prop
  | .reportChange _ reported => reported = name
  | .emission e => e.args = [.string name]
  | .runEffect .. | .finishWrite _ => True
  | _ => False

/-- What a step of a write leads to: handlers are told the name that is reported, and the frames that
are left do the same. -/
structure Progress.Announces (name : String) (p : Progress β) : Prop where
  frames : ∀ f ∈ p.frames, f.Announces name
  told : ∀ callback handler self args,
    p.control = .invoke callback { role := .handler handler, self, args } → args = [.string name]

theorem Progress.Announces.reply (name : String) (w : World β) (r : Reply β) :
    (Progress.reply w r).Announces name :=
  ⟨fun f hf => (by cases hf), fun _ _ _ _ hcontrol => (by cases hcontrol)⟩

theorem Progress.Announces.proceed {name : String} (w : World β) {frames : List (Frame β)}
    (h : ∀ f ∈ frames, f.Announces name) : (Progress.proceed w frames).Announces name :=
  ⟨h, fun _ _ _ _ hcontrol => (by cases hcontrol)⟩

theorem Emission.announces_next {e : Emission β} {name : String} (h : e.args = [.string name])
    (w : World β) : (e.next w).Announces name := by
  unfold Emission.next
  split
  · exact .reply name w _
  · dsimp only
    split
    · split
      · refine ⟨List.forall_mem_singleton.mpr h, fun _ _ _ _ hcontrol => ?_⟩
        cases hcontrol
        exact h
      · refine ⟨List.forall_mem_singleton.mpr h, fun _ _ _ _ hcontrol => ?_⟩
        cases hcontrol
        rw [h]
        rfl
      · exact .proceed _ (List.forall_mem_singleton.mpr h)
      · exact .proceed _ (List.forall_mem_singleton.mpr h)
    · exact .proceed _ (List.forall_mem_singleton.mpr h)

theorem Emission.announces_resume {e : Emission β} {name : String} (h : e.args = [.string name])
    (w : World β) (reply : Reply β) : (e.resume w reply).Announces name := by
  unfold Emission.resume
  cases reply with
  | returned outcome =>
    dsimp only
    generalize (if e.heeded = true then outcome.value? else none) = result
    split
    · exact .reply name w _
    · refine Emission.announces_next ?_ w
      exact h
  | _ => exact Emission.announces_next h w

/-- The frames of a write announce the same name until the write is done. -/
theorem Frame.Announces.resume {f : Frame β} {name : String} (h : f.Announces name) (w : World β)
    (reply : Reply β) : (f.resume w reply).Announces name := by
  cases f with
  | reportChange i reported =>
    obtain rfl : reported = name := h
    exact .proceed w (List.forall_mem_cons.mpr ⟨rfl, List.forall_mem_singleton.mpr trivial⟩)
  | emission e => exact Emission.announces_resume h w reply
  | runEffect i property effect value =>
    unfold Frame.resume World.runEffect
    cases effect with
    | none => exact .reply name w _
    | some callback =>
      exact ⟨List.forall_mem_singleton.mpr trivial, fun _ _ _ _ hcontrol => (by cases hcontrol)⟩
  | finishWrite i => exact .reply name w _
  | _ => exact h.elim

/-- A write that is admitted to a property is a write to this property. -/
theorem Instance.write_of_admitWrite {x : Instance β} {isA : InstanceId → TypeHandle → Bool}
    {name : String} {value : Value} {p : PropertyEntry β} {write : Write β}
    (hfind : x.ofClass.findProperty? name = some p)
    (h : x.admitWrite isA name value = .ok write) :
    (∃ callback, write = .computed p.spec callback) ∨
      ∃ notify equality effect, write = .stored p.spec notify equality effect := by
  unfold admitWrite at h
  rw [hfind] at h
  obtain ⟨spec, behaviour⟩ := p
  cases behaviour with
  | computed getter field =>
    dsimp only at h
    split at h
    · cases h
    · next callback _ =>
      obtain ⟨-, -, h⟩ := bind_eq_ok.mp h
      cases h
      exact .inl ⟨callback, rfl⟩
  | stored notify equality effect =>
    dsimp only at h
    split at h
    · cases h
    · split at h
      · cases h
      · obtain ⟨-, -, h⟩ := bind_eq_ok.mp h
        cases h
        exact .inr ⟨notify, equality, effect, rfl⟩

namespace World

/-- A write to a property reports under the canonical name of this property. -/
theorem announces_writeProperty {w : World β} {i : InstanceId} {x : Instance β} {name : String}
    {value : Value} {p : PropertyEntry β} (hx : w.instance? i = some x)
    (hfind : x.ofClass.findProperty? name = some p) :
    (w.writeProperty i name value).Announces p.spec.canonicalName := by
  unfold writeProperty
  rw [hx]
  dsimp only
  cases hwrite : x.admitWrite w.isA name value with
  | error e => exact .reply _ w _
  | ok write =>
    rcases Instance.write_of_admitWrite hfind hwrite with
      ⟨callback, rfl⟩ | ⟨notify, equality, effect, rfl⟩
    · exact ⟨List.forall_mem_singleton.mpr rfl, fun _ _ _ _ hcontrol => (by cases hcontrol)⟩
    · refine storeValue_cases (P := Progress.Announces p.spec.canonicalName) w i x p.spec notify
        equality effect value ?_ ?_
      · exact .proceed _ (List.forall_mem_cons.mpr ⟨rfl, List.forall_mem_singleton.mpr trivial⟩)
      · exact .proceed _ (List.forall_mem_singleton.mpr trivial)

/-- Two spellings under which the same property is found are as good as each other. -/
theorem access_eq {w : World β} {i : InstanceId} {x : Instance β} {name name' : String}
    {p : PropertyEntry β} (hx : w.instance? i = some x)
    (hfind : x.ofClass.findProperty? name = some p)
    (hfind' : x.ofClass.findProperty? name' = some p) :
    w.readProperty i name = w.readProperty i name' ∧
      ∀ value, w.writeProperty i name value = w.writeProperty i name' value := by
  refine ⟨?_, fun value => ?_⟩
  · unfold readProperty
    rw [hx]
    dsimp only
    rw [hfind, hfind']
    obtain ⟨spec, _ | _⟩ := p <;> rfl
  · have hwrites : x.admitWrite w.isA name value = x.admitWrite w.isA name' value := by
      unfold Instance.admitWrite
      rw [hfind, hfind']
      obtain ⟨spec, _ | _⟩ := p <;> rfl
    unfold writeProperty
    rw [hx]
    dsimp only
    rw [hwrites]
    cases hwrite : x.admitWrite w.isA name' value with
    | error e => rfl
    | ok write =>
      rcases Instance.write_of_admitWrite hfind' hwrite with ⟨_, rfl⟩ | ⟨_, _, _, rfl⟩ <;> rfl

end World

/-- **When a notified name leads back.** Writes to a property report under its canonical name,
whatever spelling they use. This name reaches the property again, for reading and for writing,
exactly if the name that was declared is canonical, or if it is underscored and the canonical
spelling is not declared at its level or further down. -/
theorem notified_name_reaches {c : Class β} (h : c.Built) {p : PropertyEntry β}
    (hp : c.findProperty? p.spec.name = some p) :
    (∀ (w : World β) i x, w.instance? i = some x → x.ofClass = c →
      ∀ name value, c.findProperty? name = some p →
        (w.writeProperty i name value).Announces p.spec.canonicalName) ∧
      (c.findProperty? p.spec.canonicalName = some p ↔ c.Echoes p.spec.name) ∧
      (c.Echoes p.spec.name → ∀ (w : World β) i x, w.instance? i = some x → x.ofClass = c →
        w.readProperty i p.spec.canonicalName = w.readProperty i p.spec.name ∧
          ∀ value, w.writeProperty i p.spec.canonicalName value =
            w.writeProperty i p.spec.name value) := by
  refine ⟨?_, h.findProperty?_canonical_iff hp, ?_⟩
  · rintro w i x hx rfl name value hfind
    exact World.announces_writeProperty hx hfind
  · rintro hechoes w i x hx rfl
    exact World.access_eq hx ((h.findProperty?_canonical_iff hp).mpr hechoes) hp

theorem Class.Built.findProperty?_self {c : Class β} (h : c.Built) {name : String}
    {p : PropertyEntry β} (hfind : c.findProperty? name = some p)
    (hname : (c.propertySpec? name).map (·.name) = some name) :
    p.spec.name = name ∧ c.findProperty? p.spec.name = some p := by
  refine ⟨?_, (h.filed.findProperty?_name hfind).1⟩
  unfold propertySpec? at hname
  rw [hfind] at hname
  exact Option.some.inj hname

/-- Changes of the switch of a dimmer are reported under a name that leads back to it, those of its
fade-out time under a name that leads nowhere. -/
theorem notified_name_reaches_dimmer :
    (∃ p, dimmerClass.findProperty? "switched_on" = some p ∧
      dimmerClass.findProperty? "switched-on" = some p) ∧
      ∃ p, dimmerClass.findProperty? "fade-out_time" = some p ∧
        dimmerClass.findProperty? "fade-out-time" ≠ some p := by
  obtain ⟨p, hp⟩ : ∃ p, dimmerClass.findProperty? "switched_on" = some p :=
    Option.isSome_iff_exists.mp (by decide +kernel)
  obtain ⟨q, hq⟩ : ∃ q, dimmerClass.findProperty? "fade-out_time" = some q :=
    Option.isSome_iff_exists.mp (by decide +kernel)
  obtain ⟨hpname, hpself⟩ := dimmerClass_built.findProperty?_self hp (by decide +kernel)
  obtain ⟨hqname, hqself⟩ := dimmerClass_built.findProperty?_self hq (by decide +kernel)
  have hpreaches := (notified_name_reaches dimmerClass_built hpself).2.1
  have hqreaches := (notified_name_reaches dimmerClass_built hqself).2.1
  unfold PropertySpec.canonicalName Class.Echoes at hpreaches hqreaches
  have hswitch : Name.canonical "switched_on" = "switched-on" := by decide +kernel
  have hfade : Name.canonical "fade-out_time" = "fade-out-time" := by decide +kernel
  rw [hpname, hswitch] at hpreaches
  rw [hqname, hfade] at hqreaches
  refine ⟨⟨p, hp, hpreaches.mpr ?_⟩, q, hq, fun hfound => ?_⟩
  · exact .inr (by decide +kernel)
  · exact absurd (hqreaches.mp hfound) (by decide +kernel)

/-- The name that a change is reported under need not lead to the property that changed. -/
theorem notified_name_leads_nowhere :
    ¬ ∀ (c : Class Nat) (p : PropertyEntry Nat), c.Built →
      c.findProperty? p.spec.name = some p →
        c.propertySpec? p.spec.canonicalName = some p.spec := by
  intro h
  obtain ⟨p, hp⟩ : ∃ p, dimmerClass.findProperty? "fade-out_time" = some p :=
    Option.isSome_iff_exists.mp (by decide +kernel)
  obtain ⟨hname, hself⟩ := dimmerClass_built.findProperty?_self hp (by decide +kernel)
  have hfound := h dimmerClass p dimmerClass_built hself
  unfold PropertySpec.canonicalName at hfound
  rw [hname] at hfound
  have hnone : (dimmerClass.propertySpec? (Name.canonical "fade-out_time")).isSome = false := by
    decide +kernel
  rw [hfound] at hnone
  cases hnone

end ObjectSystem
