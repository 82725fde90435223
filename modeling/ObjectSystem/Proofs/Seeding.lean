import ObjectSystem.Proofs.Making

/-!
# Backing fields of new instances

The backing fields of computed properties are seeded level by level, the root first, and a field
that has a value is left alone. So the first declaration that names a field decides what it starts
with, while a lookup finds the last one: a field starts with the default of the property that is
found exactly if the class that founded the property has the same default
(`backing_fields_start_at_founders_default`).
-/

namespace ObjectSystem

variable {σ β κ : Type}

open Machine (Reachable)

/-! ## Declared fields -/

/-- The backing field of a computed property. -/
def PropertyEntry.backing? (entry : PropertyEntry β) : Option String :=
  match entry.behaviour with
  | .computed _ field => field
  | .stored _ _ _ => none

theorem PropertyEntry.seed?_eq (entry : PropertyEntry β) :
    entry.seed? = entry.backing?.map (·, entry.spec.defaultValue) := by
  unfold seed? backing?
  split
  · next h =>
    rw [h]
    rfl
  · next h =>
    split
    · next getter field hcomputed =>
      cases field with
      | none => rfl
      | some field => exact absurd hcomputed (h getter field)
    · rfl

/-- What the backing fields of a class are seeded with, in order. -/
def Class.seeds (c : Class β) : List (String × Value) :=
  c.rootFirst.flatMap fun level => level.properties.values.filterMap PropertyEntry.seed?

/-- The declaration of a name that founds its backing field: the one nearest to the root among those
that name the field. -/
def Class.founder? (c : Class β) (name field : String) : Option (PropertyEntry β) :=
  c.rootFirst.findSome? fun level =>
    (level.properties.find? name).filter (·.backing? = some field)

/-- The properties that have a field as their backing field have one name. -/
def Class.Founds (c : Class β) (name field : String) : Prop :=
  ∀ level ∈ c.levels, ∀ entry ∈ level.properties.values,
    entry.backing? = some field → entry.spec.name = name

/-- The fields that a construction presets, children among them. -/
def Construction.presetFields (con : Construction β) : List (String × Value) :=
  con.fields ++ con.children.map fun child => (childField child.1, .object (some child.2))

/-- What a construction presets a field to. -/
def Construction.preset? (con : Construction β) (field : String) : Option Value :=
  ((con.presetFields.filter (·.1 = field)).getLast?).map (·.2)

namespace Class

variable {c : Class β} {name field : String}

/-- Of one level, the property that founds a field is what the field is seeded with. -/
theorem lookup_seeds_level {level : ClassLevel β} (hsorted : level.properties.Sorted)
    (hfiled : ∀ name entry, level.properties.find? name = some entry → entry.spec.name = name)
    (hfounds : ∀ entry ∈ level.properties.values, entry.backing? = some field →
      entry.spec.name = name) :
    (level.properties.values.filterMap PropertyEntry.seed?).lookup field =
      ((level.properties.find? name).filter (·.backing? = some field)).map
        (·.spec.defaultValue) := by
  cases hseed : (level.properties.values.filterMap PropertyEntry.seed?).lookup field with
  | some value =>
    obtain ⟨before, after, hsplit, -⟩ := List.lookup_eq_some_iff.mp hseed
    obtain ⟨entry, hentry, hpair⟩ := List.mem_filterMap.mp (show (field, value) ∈ _ from
      hsplit ▸ List.mem_append_right _ List.mem_cons_self)
    rw [PropertyEntry.seed?_eq] at hpair
    obtain ⟨field', hbacking, hpair⟩ := Option.map_eq_some_iff.mp hpair
    obtain ⟨rfl, rfl⟩ := Prod.mk.inj hpair
    -- the entry is filed under its name, which is the one that founds the field
    obtain ⟨⟨key, entry'⟩, hfiled', rfl⟩ := List.mem_map.mp hentry
    have hfind := hsorted.find?_eq_some.mpr hfiled'
    have hname := hfounds _ hentry hbacking
    rw [hfiled key entry' hfind] at hname
    rw [← hname, hfind, Option.filter_some, if_pos (by simpa using hbacking)]
    rfl
  | none =>
    cases hfind : level.properties.find? name with
    | none => rfl
    | some entry =>
      rw [Option.filter_some]
      split
      · next hbacking =>
        have hentry : entry ∈ level.properties.values :=
          List.mem_map.mpr ⟨_, NameTable.mem_of_find? hfind, rfl⟩
        have hpair : entry.seed? = some (field, entry.spec.defaultValue) := by
          rw [PropertyEntry.seed?_eq, of_decide_eq_true hbacking]
          rfl
        have hmem := List.mem_filterMap.mpr ⟨entry, hentry, hpair⟩
        simpa using List.lookup_eq_none_iff.mp hseed _ hmem
      · rfl

/-- **What founds a field is what it is seeded with.** -/
theorem lookup_seeds (hbuilt : c.Built) (hfounds : c.Founds name field) :
    c.seeds.lookup field = (c.founder? name field).map (·.spec.defaultValue) := by
  unfold seeds founder?
  have hlevels : ∀ level ∈ c.rootFirst, level ∈ c.levels := fun level => List.mem_reverse.mp
  generalize c.rootFirst = levels at hlevels
  induction levels with
  | nil => rfl
  | cons level levels ih =>
    obtain ⟨hlevel, hlevels⟩ := List.forall_mem_cons.mp hlevels
    rw [List.flatMap_cons, List.lookup_append, ih hlevels, List.findSome?_cons,
      lookup_seeds_level (hbuilt.sorted level hlevel)
        (fun name entry h => (hbuilt.filed level hlevel name entry h).1) (hfounds level hlevel)]
    cases (level.properties.find? name).filter (·.backing? = some field) <;> rfl

/-- A property that is found has a founder. -/
theorem Built.exists_founder (hbuilt : c.Built) {spelling : String} {entry : PropertyEntry β}
    (hfind : c.findProperty? spelling = some entry) (hbacking : entry.backing? = some field) :
    ∃ founder, c.founder? entry.spec.name field = some founder := by
  obtain ⟨level, hlevel, hdeclared⟩ :=
    List.exists_of_findSome?_eq_some (hbuilt.declared_of_findProperty? hfind)
  refine Option.isSome_iff_exists.mp (List.findSome?_isSome_iff.mpr
    ⟨level, List.mem_reverse.mpr hlevel, ?_⟩)
  rw [hdeclared, Option.filter_some, if_pos (by simpa using hbacking)]
  rfl

end Class

/-! ## What a preparation does to a field -/

/-- What becomes of the value of a field. -/
def Preparation.fill (field : String) : Preparation β → Option Value → Option Value
  | .setsField name value, old => if field = name then some value else old
  | .bindsChild name child, old =>
    if field = childField name then some (.object (some child)) else old
  | .seedsField name default, old => if field = name then old.or (some default) else old
  | .createsAction _, old => old

theorem Preparation.find?_refit (step : Preparation β) (kind : InstanceKind) (a : ActionId)
    (g : GroupId) (x : Fittings β) (field : String) :
    (step.refit kind a g x).fields.find? field = step.fill field (x.fields.find? field) := by
  cases step with
  | setsField name value => exact NameTable.find?_insert _ _ _ _
  | bindsChild name child => exact NameTable.find?_insert _ _ _ _
  | seedsField name default =>
    show (x.seedField name default).fields.find? field = if _ then _ else _
    unfold Fittings.seedField
    by_cases hname : field = name
    · subst hname
      rw [if_pos rfl]
      -- a field that has a value is left alone
      show (if (x.fields.find? field).isSome = true then _ else _ : Fittings β).fields.find? field =
        _
      cases hold : x.fields.find? field with
      | some value => exact hold
      | none => exact NameTable.find?_insert_self _ _ _
    · rw [if_neg hname]
      split
      · rfl
      · exact (NameTable.find?_insert _ _ _ _).trans (if_neg hname)
  | createsAction declared =>
    exact congrArg (·.find? field) (x.fields_create kind declared a g)

theorem Preparation.ofClass_refit (step : Preparation β) (kind : InstanceKind) (a : ActionId)
    (g : GroupId) (x : Fittings β) : (step.refit kind a g x).ofClass = x.ofClass := by
  cases step with
  | setsField | bindsChild => rfl
  | seedsField name default =>
    show (x.seedField name default).ofClass = _
    unfold Fittings.seedField
    split <;> rfl
  | createsAction declared => exact x.ofClass_create kind declared a g

namespace Preparation

variable (field : String)

/-- Preset fields are written one over the other. -/
theorem foldl_fill_presets (con : Construction β) (old : Option Value) :
    (con.presets con.children).foldl (fun value step => step.fill field value) old =
      (con.preset? field).or old := by
  have hwrites (entries : List (String × Value)) (old : Option Value) :
      (entries.map fun entry => (.setsField entry.1 entry.2 : Preparation β)).foldl
        (fun value step => step.fill field value) old =
        (((entries.filter (·.1 = field)).getLast?).map (·.2)).or old := by
    induction entries using List.reverseRecOn with
    | nil => rfl
    | append_singleton entries entry ih =>
      rw [List.map_append, List.foldl_append, ih, List.filter_append]
      by_cases hname : entry.1 = field
      · simp [fill, hname]
      · simp [fill, hname, Ne.symm hname]
  have hchildren : (con.presets con.children).foldl (fun value step => step.fill field value) old =
      (con.presetFields.map fun entry => (.setsField entry.1 entry.2 : Preparation β)).foldl
        (fun value step => step.fill field value) old := by
    unfold Construction.presets Construction.presetFields
    rw [List.map_append, List.foldl_append, List.foldl_append, List.foldl_map, List.foldl_map,
      List.foldl_map, List.foldl_map]
    rfl
  rw [hchildren, hwrites]
  rfl

/-- Of the values that a field is seeded with the first one stays. -/
theorem foldl_fill_class (c : Class β) (old : Option Value) :
    c.preparations.foldl (fun value step => step.fill field value) old =
      old.or (c.seeds.lookup field) := by
  have hseeds (seeds : List (String × Value)) (old : Option Value) :
      (seeds.map fun seed => (.seedsField seed.1 seed.2 : Preparation β)).foldl
        (fun value step => step.fill field value) old = old.or (seeds.lookup field) := by
    induction seeds generalizing old with
    | nil => exact Option.or_none.symm
    | cons seed seeds ih =>
      rw [List.map_cons, List.foldl_cons, ih, List.lookup_cons]
      by_cases hname : field = seed.1
      · cases old <;> simp [fill, hname]
      · simp [fill, hname, beq_false_of_ne hname]
  have hactions (actions : List (ActionDeclaration β)) (old : Option Value) :
      (actions.map Preparation.createsAction).foldl (fun value step => step.fill field value) old =
        old := by
    induction actions with
    | nil => rfl
    | cons action actions ih => exact ih
  unfold Class.preparations Class.seeds
  generalize c.rootFirst = levels
  induction levels generalizing old with
  | nil => exact Option.or_none.symm
  | cons level levels ih =>
    rw [List.flatMap_cons, List.flatMap_cons, List.foldl_append, ih, List.lookup_append,
      ← Option.or_assoc]
    unfold ClassLevel.preparations
    rw [List.foldl_append, hseeds, hactions]

end Preparation

namespace World

variable {w : World β}

/-- Before any callback runs, a field is as it was preset, else as it was seeded first. -/
theorem Orderly.field_prepared (h : w.Orderly) (hnew : w.fittings ⟨w.nextInstance⟩ = none)
    (con : Construction β) (done : List (Preparation β)) (field : String) {x : Fittings β}
    (hx : (w.prepared con done).fittings ⟨w.nextInstance⟩ = some x) :
    x.ofClass = con.ofClass ∧
      x.fields.find? field = done.foldl (fun value step => step.fill field value) none := by
  refine h.prepared_induction hnew (P := fun done x => x.ofClass = con.ofClass ∧
    x.fields.find? field = done.foldl (fun value step => step.fill field value) none)
    ⟨rfl, rfl⟩ ?_ done hx
  rintro done step y - ⟨hclass, hfield⟩
  rw [List.foldl_append, ← hfield]
  exact ⟨(step.ofClass_refit _ _ _ y).trans hclass, step.find?_refit _ _ _ y field⟩

end World

/-! ## What is written during the construction -/

/-- What is written to a field with the next step. -/
def Control.fieldWrite? (i : InstanceId) (field : String) : Control β → Option Value
  | .perform (.setField j name value) => if j = i ∧ name = field then some value else none
  | _ => none

theorem Control.find?_refit (c : Control β) (w : World β) (i : InstanceId) (x : Fittings β)
    (field : String) :
    (c.refit w i x).fields.find? field = (c.fieldWrite? i field).or (x.fields.find? field) := by
  have hsame {y : Fittings β} (hy : y.fields = x.fields) :
      y.fields.find? field = (none : Option Value).or (x.fields.find? field) := by
    rw [hy, Option.none_or]
  cases c with
  | perform command =>
    cases command with
    | setField j name value =>
      show (if j = i then x.setField name value else x).fields.find? field =
        (if j = i ∧ name = field then some value else none).or _
      by_cases hj : j = i
      · rw [if_pos hj]
        refine (NameTable.find?_insert _ _ _ _).trans ?_
        by_cases hname : field = name
        · rw [if_pos hname, if_pos ⟨hj, hname.symm⟩, Option.some_or]
        · rw [if_neg hname, if_neg fun h => hname h.2.symm, Option.none_or]
      · rw [if_neg hj, if_neg fun h => hj h.1, Option.none_or]
    | attachAction j a =>
      refine hsame ?_
      unfold refit Command.refit
      dsimp only
      split
      · split
        · exact x.fields_attach _ _ _
        · rfl
      · rfl
    | setAccels | insertGroup =>
      refine hsame ?_
      unfold refit Command.refit
      dsimp only
      split <;> rfl
    | ownGroup j =>
      refine hsame ?_
      unfold refit Command.refit
      dsimp only
      split
      · exact x.fields_own _
      · rfl
    | _ => exact hsame rfl
  | invoke | continueTask | deliver => exact hsame rfl

theorem Control.ofClass_refit (c : Control β) (w : World β) (i : InstanceId) (x : Fittings β) :
    (c.refit w i x).ofClass = x.ofClass := by
  cases c with
  | perform command =>
    cases command with
    | attachAction j a =>
      unfold refit Command.refit
      dsimp only
      split
      · split
        · exact x.ofClass_attach _ _ _
        · rfl
      · rfl
    | setField | setAccels | insertGroup =>
      unfold refit Command.refit
      dsimp only
      split <;> rfl
    | ownGroup j =>
      unfold refit Command.refit
      dsimp only
      split
      · exact x.ofClass_own _
      · rfl
    | _ => rfl
  | invoke | continueTask | deliver => rfl

namespace Machine

variable {client : Client σ β κ} {m : Machine σ β κ}

/-- What is written to a field in so many steps. -/
def fieldWrites (client : Client σ β κ) (i : InstanceId) (field : String) (m : Machine σ β κ)
    (n : Nat) : List Value :=
  (List.range n).filterMap fun j => (m.after client j).control.fieldWrite? i field

theorem getLast?_fieldWrites_succ (i : InstanceId) (field : String) (n : Nat) :
    (m.fieldWrites client i field (n + 1)).getLast? =
      ((m.after client n).control.fieldWrite? i field).or
        (m.fieldWrites client i field n).getLast? := by
  unfold fieldWrites
  rw [List.range_succ, List.filterMap_append, List.getLast?_append, List.filterMap_cons]
  cases (m.after client n).control.fieldWrite? i field <;> rfl

/-- **Where the value of a field comes from** when a construction replies its instance: from the
last write by a callback, else from the last preset, else from the first seed. -/
theorem Made.field {con : Construction β} {i : InstanceId} {k : Nat} (h : Made client m con i k)
    (field : String) {x : Instance β} (hx : (m.after client k).world.instance? i = some x) :
    x.ofClass = con.ofClass ∧
      x.field? field = (m.fieldWrites client i field k).getLast?.or
        ((con.preset? field).or (con.ofClass.seeds.lookup field)) := by
  have hnone : (m.fieldWrites client i field 1).getLast? = none := by
    have hnothing : m.control.fieldWrite? i field = none := by
      rw [h.asks]
      rfl
    rw [getLast?_fieldWrites_succ]
    exact congrArg (Option.or · _) hnothing
  obtain ⟨y, hy, hclass, hfield⟩ := h.run h.pos le_rfl
    (P := fun j x => x.ofClass = con.ofClass ∧ x.fields.find? field =
      (m.fieldWrites client i field j).getLast?.or
        ((con.preset? field).or (con.ofClass.seeds.lookup field)))
    (fun x hx => by
      rw [h.eq] at hx
      obtain ⟨hclass, hfield⟩ := h.reach.actions_orderly.field_prepared h.reach.fittings_next con
        con.preparations field hx
      refine ⟨hclass, hfield.trans ?_⟩
      rw [hnone, Option.none_or, Construction.preparations, List.foldl_append,
        Preparation.foldl_fill_presets, Preparation.foldl_fill_class, Option.or_none])
    (fun j _ _ x _ ⟨hclass, hfield⟩ => by
      rw [getLast?_fieldWrites_succ, Option.or_assoc, ← hfield]
      exact ⟨(Control.ofClass_refit _ _ i x).trans hclass, Control.find?_refit _ _ i x field⟩)
  obtain rfl := Option.some.inj ((World.fittings_eq hx).symm.trans hy)
  exact ⟨hclass, hfield⟩

end Machine

/-! ## The law -/

/-- **What a backing field starts with.** Whenever a construction replies its instance, a raw field
of the instance holds what was written to it last by a callback; if nothing was, what it was preset
to last, as a field or as a child; if it was not preset, what it was seeded with first, the root
first. So for every computed property that is found, if no property of another name has the same
backing field, and nobody writes or presets it: the field holds the default of the declaration that
founded it, the one nearest to the root that gives the property this field, and it holds the default
of the property that is found exactly if the two are the same. -/
theorem backing_fields_start_at_founders_default (client : Client σ β κ) (m : Machine σ β κ)
    (hreach : Reachable client m) (con : Construction β)
    (hm : m.control = .perform (.construct con)) (i : InstanceId) (k : Nat)
    (hanswers : m.Answers client (.construct con) (.object i) k) :
    ∃ x, (m.after client k).world.instance? i = some x ∧ x.ofClass = con.ofClass ∧
      ∀ field,
        x.field? field = (m.fieldWrites client i field k).getLast?.or
          ((con.preset? field).or (con.ofClass.seeds.lookup field)) ∧
        ∀ name entry, con.ofClass.Built → con.ofClass.findProperty? name = some entry →
          entry.backing? = some field → con.ofClass.Founds entry.spec.name field →
          m.fieldWrites client i field k = [] → con.preset? field = none →
            ∃ founder, con.ofClass.founder? entry.spec.name field = some founder ∧
              x.field? field = some founder.spec.defaultValue ∧
              (x.field? field = some entry.spec.defaultValue ↔
                founder.spec.defaultValue = entry.spec.defaultValue) := by
  have hmade := hreach.made hm hanswers
  obtain ⟨x, hx⟩ := World.exists_instance hmade.alive
  refine ⟨x, hx, (hmade.field "" hx).1, fun field => ⟨(hmade.field field hx).2, ?_⟩⟩
  intro name entry hbuilt hfind hbacking hfounds hwrites hpreset
  obtain ⟨founder, hfounder⟩ := hbuilt.exists_founder hfind hbacking
  have hfield : x.field? field = some founder.spec.defaultValue := by
    rw [(hmade.field field hx).2, hwrites, hpreset, Class.lookup_seeds hbuilt hfounds, hfounder]
    rfl
  refine ⟨founder, hfounder, hfield, ?_⟩
  rw [hfield, Option.some.injEq]

/-- A vessel has a level, which it keeps in a field. -/
def vessel : Except ClassError (ClassBuilder Nat) :=
  { className := "Vessel" : ClassBuilder Nat }.computed .builtin "level" .uint
    { default := some (.uint 1) } (some "fill") 7

/-- A jug is a vessel with another default for the level. -/
def jug (r : Registry) (parent : Class Nat) : Except ClassError (ClassBuilder Nat) :=
  { className := "Jug", parent := some (.declared parent) : ClassBuilder Nat }.computed r "level"
    .uint { default := some (.uint 2) } (some "fill") 8

/-- The registered jug, with its registry. -/
def jugs : Except ClassError (Registry × Class Nat) := do
  let base ← vessel
  let (r, parent) ← base.finalize .builtin
  let b ← jug r parent
  b.finalize r

def jugClass : Class Nat :=
  match jugs with
  | .ok (_, c) => c
  | .error _ => .simple .empty [] none

theorem ClassBuilder.parent_of_computed {b b' : ClassBuilder β} {r : Registry} {name : String}
    {tag : TypeTag} {options : PropertyOptions} {field : Option String} {getter : β}
    (h : b.computed r name tag options field getter = .ok b') : b'.parent = b.parent := by
  unfold ClassBuilder.computed at h
  split at h
  · cases h
  · obtain ⟨spec, -, hspec⟩ := bind_eq_ok.mp h
    cases hspec
    rfl

theorem jugClass_built : jugClass.Built := by
  unfold jugClass
  split
  · next r c hc =>
    obtain ⟨base, hbase, hc⟩ := bind_eq_ok.mp hc
    obtain ⟨⟨r₁, parent⟩, hparent, hc⟩ := bind_eq_ok.mp hc
    obtain ⟨b, hb, hfinal⟩ := bind_eq_ok.mp hc
    refine .finalize (.computed (.new rfl rfl) hb) (fun p hp => ?_) hfinal
    rw [ClassBuilder.parent_of_computed hb] at hp
    cases hp
    -- the parent is the vessel
    refine .finalize (.computed (.new rfl rfl) hbase) (fun p hp => ?_) hparent
    rw [ClassBuilder.parent_of_computed hbase] at hp
    cases hp
  · next e he =>
    have hok : jugs.isOk = true := by decide +kernel
    rw [he] at hok
    cases hok

/-- A glazed jug, to be constructed. -/
def jugPlan : Construction Nat :=
  { ofClass := jugClass, context := ⟨0⟩, fields := [("glaze", .string "blue")] }

/-- A program that makes a glazed jug. -/
def potter : Client Unit Nat (Routine Nat) :=
  .ofRoutines
    (fun
      | 0 => { acts := [.command (.newContext { clock := .manual }),
          .command (.construct jugPlan)] }
      | _ => {})
    [.object ⟨1⟩]

/-- A state of the run of `potter`. -/
def potterAfter (n : Nat) : Machine Unit Nat (Routine Nat) :=
  (Machine.initial () 0).after potter n

/-- What the class and the run of `potter` come to. -/
theorem potter_runs :
    (∀ i, i < 3 → 0 < i →
      (potterAfter 4).stack.length < ((potterAfter 4).after potter i).stack.length) ∧
    ((potterAfter 4).after potter 3).stack.length = (potterAfter 4).stack.length ∧
    ((potterAfter 4).after potter 3).control.made? = some ⟨1⟩ ∧
    (∀ field ∈ ["glaze", "fill"],
      ((potterAfter 4).fieldWrites potter ⟨1⟩ field 3).isEmpty = true) ∧
    (∀ level ∈ jugClass.levels, ∀ entry ∈ level.properties.values, entry.spec.name = "level") ∧
    (jugClass.findProperty? "level").map (fun entry =>
      (entry.backing?, entry.spec.name, entry.spec.defaultValue)) =
        some (some "fill", "level", .uint 2) ∧
    (jugClass.founder? "level" "fill").map (·.spec.defaultValue) = some (.uint 1) := by
  decide +kernel

theorem potter_makes :
    (potterAfter 4).Answers potter (.construct jugPlan) (.object ⟨1⟩) 3 := by
  have hm : (potterAfter 4).control = .perform (.construct jugPlan) := by rfl
  obtain ⟨hbusy, hlength, hmade, -⟩ := potter_runs
  exact .of_perform hm (fun i hpos hi => hbusy i hi hpos) hlength (Control.eq_of_made? hmade)

theorem potter_writes_nothing {field : String} (h : field ∈ ["glaze", "fill"]) :
    (potterAfter 4).fieldWrites potter ⟨1⟩ field 3 = [] := by
  obtain ⟨-, -, -, hwrites, -⟩ := potter_runs
  exact List.isEmpty_iff.mp (hwrites field h)

theorem jugPlan_ofClass : jugPlan.ofClass = jugClass := by
  rw [jugPlan]

theorem jugPlan_presets : jugPlan.preset? "glaze" = some (.string "blue") ∧
    (jugPlan.preset? "fill").isNone = true := by
  decide

/-- No other property of a jug has a backing field. -/
theorem jugClass_founds (field : String) : jugClass.Founds "level" field := by
  obtain ⟨-, -, -, -, hnames, -⟩ := potter_runs
  exact fun level hlevel entry hentry _ => hnames level hlevel entry hentry

/-- The property that is found by the name of the level. -/
theorem jugClass_level : ∃ entry, jugClass.findProperty? "level" = some entry ∧
    entry.backing? = some "fill" ∧ entry.spec.name = "level" ∧
    entry.spec.defaultValue = .uint 2 := by
  obtain ⟨-, -, -, -, -, hfound, -⟩ := potter_runs
  obtain ⟨entry, hfind, hentry⟩ := Option.map_eq_some_iff.mp hfound
  obtain ⟨hbacking, hentry⟩ := Prod.mk.inj hentry
  exact ⟨entry, hfind, hbacking, Prod.mk.inj hentry⟩

/-- A new jug is as full as vessels are; its glaze is as it was preset. -/
theorem backing_fields_start_at_founders_default_potter :
    (potterAfter 4).Answers potter (.construct jugPlan) (.object ⟨1⟩) 3 ∧
      ∃ x, ((potterAfter 4).after potter 3).world.instance? ⟨1⟩ = some x ∧
        x.field? "glaze" = some (.string "blue") ∧ x.field? "fill" = some (.uint 1) := by
  obtain ⟨x, hx, -, hfields⟩ := backing_fields_start_at_founders_default potter (potterAfter 4)
    ((Machine.Reachable.initial () 0).after 4) jugPlan (by rfl) ⟨1⟩ 3 potter_makes
  rw [jugPlan_ofClass] at hfields
  refine ⟨potter_makes, x, hx, ?_, ?_⟩
  · rw [(hfields "glaze").1, potter_writes_nothing (by decide), jugPlan_presets.1]
    rfl
  · obtain ⟨entry, hfind, hbacking, hname, -⟩ := jugClass_level
    obtain ⟨founder, hfounder, hfill, -⟩ := (hfields "fill").2 "level" entry jugClass_built hfind
      hbacking (hname ▸ jugClass_founds "fill") (potter_writes_nothing (by decide))
      (Option.isNone_iff_eq_none.mp jugPlan_presets.2)
    obtain ⟨-, -, -, -, -, -, hdefault⟩ := potter_runs
    rw [← hname, hfounder] at hdefault
    exact hfill.trans hdefault

/-- A backing field does not always start with the default of the property that is found, even if
properties of different names have different fields. -/
theorem backing_field_starts_with_other_default :
    ¬ ∀ (client : Client Unit Nat (Routine Nat)) (m : Machine Unit Nat (Routine Nat)),
      m.Reachable client → ∀ con, m.control = .perform (.construct con) → con.ofClass.Built →
        (∀ field, ∃ name, con.ofClass.Founds name field) →
        ∀ i k, m.Answers client (.construct con) (.object i) k →
          ∀ x, (m.after client k).world.instance? i = some x →
            ∀ name entry field, con.ofClass.findProperty? name = some entry →
              entry.backing? = some field → m.fieldWrites client i field k = [] →
              con.preset? field = none → x.field? field = some entry.spec.defaultValue := by
  intro h
  obtain ⟨x, hx⟩ := World.exists_instance (i := ⟨1⟩) (w := ((potterAfter 4).after potter 3).world)
    (Option.isSome_iff_ne_none.mp (by decide +kernel))
  obtain ⟨entry, hfind, hbacking, -, hdefault⟩ := jugClass_level
  have hstart := h potter (potterAfter 4) ((Machine.Reachable.initial () 0).after 4) jugPlan
    (by rfl)
  rw [jugPlan_ofClass] at hstart
  have hfill := hstart jugClass_built (fun field => ⟨"level", jugClass_founds field⟩) ⟨1⟩ 3
    potter_makes x hx "level" entry "fill" hfind hbacking (potter_writes_nothing (by decide))
    (Option.isNone_iff_eq_none.mp jugPlan_presets.2)
  have hfacts : (((potterAfter 4).after potter 3).world.instance? ⟨1⟩).bind (·.field? "fill") =
      some (.uint 1) := by decide +kernel
  rw [hx] at hfacts
  rw [hdefault] at hfill
  cases hfill.symm.trans hfacts

end ObjectSystem
