import ObjectSystem.Proofs.Deal
import ObjectSystem.Proofs.Declared
import ObjectSystem.Proofs.Deferral

/-!
# Stored values are valid

As long as only built classes are instantiated, every value that an instance stores passes the check
of the property that is found under the name of the entry (`World.Valid`). A write is checked
against the property under the spelling that the caller used, and filed under the declared name;
that both are the same property is `Class.Filed.findProperty?_name`. A value that refers to an
instance stays valid because that instance is kept by the one that stores it.
-/

namespace ObjectSystem

variable {σ β κ : Type}

/-- A write that is admitted to a stored property is one of a value that passes its check. -/
theorem Instance.property_of_admitWrite {x : Instance β} {isA : InstanceId → TypeHandle → Bool}
    {name : String} {value : Value} {spec : PropertySpec} {notify : Option NotifyPolicy}
    {equality : Option ObjectEquality} {effect : Option β}
    (h : x.admitWrite isA name value = .ok (.stored spec notify equality effect)) :
    x.ofClass.findProperty? name = some ⟨spec, .stored notify equality effect⟩ ∧
      spec.check isA value = .ok () := by
  unfold admitWrite at h
  split at h
  · -- a setter without a property
    split at h <;> cases h
  · -- a computed property
    split at h
    · cases h
    · obtain ⟨-, -, h⟩ := bind_eq_ok.mp h
      cases h
  · next hfind =>
      split at h
      · cases h
      · split at h
        · cases h
        · obtain ⟨_, hcheck, h⟩ := bind_eq_ok.mp h
          cases h
          exact ⟨hfind, mapError_eq_ok.mp hcheck⟩

namespace World

/-! ## Classes and stored values of instances -/

/-- The class of an instance and the values that it stores. -/
def values? (w : World β) (i : InstanceId) : Option (Class β × NameTable Value) :=
  (w.instance? i).map fun x => (x.ofClass, x.stored)

section
variable {w v : World β} {i j : InstanceId}

theorem values?_eq {x : Instance β} (hx : w.instance? i = some x) :
    w.values? i = some (x.ofClass, x.stored) := by
  rw [values?, hx]
  rfl

theorem values?_eq_estate (w : World β) (i : InstanceId) :
    w.values? i = (w.estate? i).map fun d => (d.ofClass, d.stored) := by
  rw [estate?, Option.map_map]
  rfl

theorem isA_eq {type : TypeHandle} :
    w.isA i type = true ↔ ∃ c t, w.values? i = some (c, t) ∧ c.isA type = true := by
  unfold isA values?
  cases w.instance? i with
  | none => exact ⟨fun h => (by cases h), fun ⟨_, _, h, _⟩ => (by cases h)⟩
  | some x =>
      refine ⟨fun h => ⟨x.ofClass, x.stored, rfl, h⟩, fun ⟨c, t, h, hc⟩ => ?_⟩
      cases h
      exact hc

/-- An instance stays what it is as long as it keeps its class. -/
theorem isA_of_class (hclass : ∀ c t, w.values? i = some (c, t) → ∃ t', v.values? i = some (c, t'))
    {type : TypeHandle} (hi : w.isA i type = true) : v.isA i type = true := by
  obtain ⟨c, t, hc, htype⟩ := isA_eq.mp hi
  obtain ⟨t', ht'⟩ := hclass c t hc
  exact isA_eq.mpr ⟨c, t', ht', htype⟩

theorem values?_modifyInstance (w : World β) (i j : InstanceId) {f : Instance β → Instance β}
    (hf : ∀ x, (f x).ofClass = x.ofClass ∧ (f x).stored = x.stored) :
    (w.modifyInstance i f).values? j = w.values? j := by
  unfold values?
  rw [instance?_modifyInstance]
  split
  · cases w.instance? j with
    | none => rfl
    | some x => exact congrArg some (Prod.ext (hf x).1 (hf x).2)
  · rfl

theorem values?_replaceInstance {x y : Instance β} (hx : w.instance? i = some x)
    (hclass : y.ofClass = x.ofClass) (hstored : y.stored = x.stored) (j : InstanceId) :
    (w.modifyInstance i fun _ => y).values? j = w.values? j := by
  unfold values?
  rw [instance?_modifyInstance]
  split
  · next hj =>
      rw [hj, hx]
      exact congrArg some (Prod.ext hclass hstored)
  · rfl

theorem values?_store {x : Instance β} (hx : w.instance? i = some x) (name : String) (value : Value)
    (j : InstanceId) : (w.modifyInstance i (·.store name value)).values? j =
      if j = i then some (x.ofClass, x.stored.insert name value) else w.values? j := by
  unfold values?
  rw [instance?_modifyInstance]
  split
  · next hj =>
      rw [hj, hx]
      rfl
  · rfl

theorem values?_addInstance (w : World β) (ofClass : Class β) (c : ContextId) (i : InstanceId) :
    (w.addInstance ofClass c).1.values? i =
      (w.values? i).or (if i = ⟨w.nextInstance⟩ then some (ofClass, .empty) else none) := by
  have hfind : (w.addInstance ofClass c).1.instance? i =
      (w.instance? i).or
        (if i = ⟨w.nextInstance⟩ then some { ofClass, context := c } else none) :=
    Table.find?_add _ _ _ _
  unfold values?
  rw [hfind, Option.map_or]
  split <;> rfl

theorem values?_dropInstance (i j : InstanceId) :
    (w.dropInstance i).values? j = if j = i then none else w.values? j := by
  unfold values?
  rw [instance?_dropInstance]
  split <;> rfl

theorem Spares.values (h : Spares w v) (i : InstanceId) : v.values? i = w.values? i := by
  rw [values?_eq_estate, values?_eq_estate, h.estate]

theorem values?_dispose (w : World β) (i j : InstanceId) :
    (w.dispose i).values? j = w.values? j := by
  refine dispose_induction (P := fun v => v.values? j = w.values? j) w i rfl fun x _ _ => ?_
  exact values?_modifyInstance _ i j fun x => ⟨rfl, rfl⟩

theorem Settled.values {e : EventId} {ev : Event} {o : EventOutcome} (h : w.Settled e ev o v)
    (i : InstanceId) : v.values? i = w.values? i := by
  rw [values?_eq_estate, values?_eq_estate, h.estate]
  split
  · cases w.estate? i <;> rfl
  · rfl

theorem values?_settle (w : World β) (e : EventId) (o : EventOutcome) (i : InstanceId) :
    (w.settle e o).values? i = w.values? i := by
  rcases settled_or_same w e o with ⟨ev, hsettled⟩ | hsame
  · exact hsettled.values i
  · rw [hsame]

/-! ## Valid worlds -/

/-- A stored entry is valid: its name is the declared name of a stored property, whose check its
value passes. -/
def ValidEntry (w : World β) (c : Class β) (entry : String × Value) : Prop :=
  ∃ spec notify equality effect,
    c.findProperty? entry.1 = some ⟨spec, .stored notify equality effect⟩ ∧
      spec.check w.isA entry.2 = .ok ()

/-- Every class is filed and every stored entry is valid. -/
def Valid (w : World β) : Prop :=
  ∀ i c t, w.values? i = some (c, t) → c.Filed ∧ ∀ entry ∈ t.entries, w.ValidEntry c entry

/-- An entry stays valid where the instance that it refers to lives on. -/
theorem ValidEntry.mono {c : Class β} {entry : String × Value} (h : w.ValidEntry c entry)
    (hmono : ∀ j ∈ entry.2.targets, ∀ type, w.isA j type = true → v.isA j type = true) :
    v.ValidEntry c entry := by
  obtain ⟨spec, notify, equality, effect, hfind, hcheck⟩ := h
  exact ⟨spec, notify, equality, effect, hfind, PropertySpec.check_mono hmono hcheck⟩

/-- Nothing that is stored changes. -/
theorem Valid.of_values (h : w.Valid) (hv : ∀ i, v.values? i = w.values? i) : v.Valid := by
  intro i c t hi
  rw [hv] at hi
  obtain ⟨hfiled, hentries⟩ := h i c t hi
  refine ⟨hfiled, fun entry hentry => (hentries entry hentry).mono fun j _ _ => ?_⟩
  exact isA_of_class fun d t' hd => ⟨t', (hv j).trans hd⟩

/-- A new instance of a filed class stores nothing. -/
theorem Valid.addInstance (h : w.Valid) {ofClass : Class β} (hfiled : ofClass.Filed)
    (c : ContextId) : (w.addInstance ofClass c).1.Valid := by
  have hmono (j : InstanceId) (type : TypeHandle) :
      w.isA j type = true → (w.addInstance ofClass c).1.isA j type = true :=
    isA_of_class fun d t hd => ⟨t, by rw [values?_addInstance, hd]; rfl⟩
  intro i d t hi
  rw [values?_addInstance] at hi
  cases hold : w.values? i with
  | some old =>
      rw [hold] at hi
      obtain rfl := Option.some.inj hi
      obtain ⟨hd, hentries⟩ := h i d t hold
      exact ⟨hd, fun entry hentry => (hentries entry hentry).mono fun j _ => hmono j⟩
  | none =>
      rw [hold, Option.none_or] at hi
      split at hi
      · cases hi
        exact ⟨hfiled, fun entry hentry => (by cases hentry)⟩
      · cases hi

/-- An admitted value is stored under the declared name of the property that it was checked for. -/
theorem Valid.store (h : w.Valid) {x : Instance β} (hx : w.instance? i = some x) {name : String}
    {value : Value} {spec : PropertySpec} {notify : Option NotifyPolicy}
    {equality : Option ObjectEquality} {effect : Option β}
    (hwrite : x.admitWrite w.isA name value = .ok (.stored spec notify equality effect)) :
    (w.modifyInstance i (·.store spec.name value)).Valid := by
  obtain ⟨hfind, hcheck⟩ := Instance.property_of_admitWrite hwrite
  have hmono (j : InstanceId) (type : TypeHandle) : w.isA j type = true →
      (w.modifyInstance i (·.store spec.name value)).isA j type = true := by
    refine isA_of_class fun c t hc => ?_
    rw [values?_store hx]
    split
    · next hji =>
        rw [hji, values?_eq hx] at hc
        cases hc
        exact ⟨_, rfl⟩
    · exact ⟨t, hc⟩
  obtain ⟨hfiled, hentries⟩ := h i x.ofClass x.stored (values?_eq hx)
  intro j c t hj
  rw [values?_store hx] at hj
  split at hj
  · cases hj
    refine ⟨hfiled, fun entry hentry => ?_⟩
    rcases NameTable.mem_of_mem_insertEntry hentry with rfl | hold
    · -- the declared name finds the property that the spelling of the write has found
      exact ⟨spec, notify, equality, effect, (hfiled.findProperty?_name hfind).1,
        PropertySpec.check_mono (fun j _ => hmono j) hcheck⟩
    · exact (hentries entry hold).mono fun j _ => hmono j
  · obtain ⟨hd, hrest⟩ := h j c t hj
    exact ⟨hd, fun entry hentry => (hrest entry hentry).mono fun j _ => hmono j⟩

/-- An instance that is dropped is not one that a stored value refers to. -/
theorem Valid.dropInstance (h : w.Valid) {handles : List Handle}
    (hi : i ∉ w.keptInstances handles) : (w.dropInstance i).Valid := by
  intro j c t hj
  rw [values?_dropInstance] at hj
  split at hj
  · cases hj
  · obtain ⟨hfiled, hentries⟩ := h j c t hj
    refine ⟨hfiled, fun entry hentry => (hentries entry hentry).mono fun k hk _ => ?_⟩
    obtain ⟨x, hx, heq⟩ := Option.map_eq_some_iff.mp hj
    obtain ⟨rfl, rfl⟩ := Prod.mk.inj heq
    -- a live instance keeps the instances that its values refer to
    have hne : k ≠ i := by
      rintro rfl
      refine hi (kept_of_instance hx (List.mem_append_left _ ?_))
      have hvalue : entry.2 ∈ x.stored.values := List.mem_map_of_mem hentry
      refine List.mem_append_left _ (List.mem_append_right _ ?_)
      exact List.mem_flatMap.mpr ⟨entry.2, hvalue, List.mem_map_of_mem hk⟩
    refine isA_of_class fun d t hd => ⟨t, ?_⟩
    rw [values?_dropInstance, if_neg hne]
    exact hd

theorem Valid.sheds {events : List EventId} (h : w.Valid) (hs : Sheds events w v) : v.Valid := by
  induction hs with
  | refl => exact h
  | abandons _ e ev he hnone hsettled ih => exact ih.of_values hsettled.values
  | drops _ _ i hi ih => exact ih.dropInstance hi

end

/-- Connecting a handler is no change of class or stored values. -/
theorem values_of_connect {x y : Instance β} {signal : String} {target : HandlerTarget β}
    {h : HandlerId} (hc : x.connect signal target = .ok (y, h)) :
    y.ofClass = x.ofClass ∧ y.stored = x.stored := by
  obtain ⟨g, -, -, -, -, hy⟩ := Instance.estate_of_connect hc
  exact ⟨congrArg Estate.ofClass hy, congrArg Estate.stored hy⟩

theorem values_of_connectEvent {x y : Instance β} {event : EventId} {resolve : String}
    {reject : Option String} {ids : List HandlerId}
    (hc : connectEvent x event resolve reject = .ok (y, ids)) :
    y.ofClass = x.ofClass ∧ y.stored = x.stored := by
  obtain ⟨z, first, hfirst, ⟨-, rfl, -⟩ | ⟨signal, second, -, hsecond, -⟩⟩ :=
    connects_of_connectEvent hc
  · exact values_of_connect hfirst
  · obtain ⟨hclass, hstored⟩ := values_of_connect hfirst
    obtain ⟨hclass', hstored'⟩ := values_of_connect hsecond
    exact ⟨hclass'.trans hclass, hstored'.trans hstored⟩

end World

/-! ## Valid runs -/

/-- A move that instantiates no class but built ones keeps a world valid. -/
theorem Deal.valid {m m' : Machine σ β κ} (h : Deal m m') (hw : m.world.Valid)
    (hbuilt : ∀ c, m.control = .perform (.construct c) → c.ofClass.Built) : m'.world.Valid := by
  cases h with
  | spares hspares hs hc => exact hw.of_values hspares.values
  | creates c hm hspares hs hc =>
      exact (hw.addInstance (hbuilt c hm).filed c.context).of_values hspares.values
  | stores i x name value spec notify equality effect hx hwrite hv hs hc =>
      rw [hv]
      exact hw.store hx hwrite
  | emits i signal detail args accumulator hv hs hc =>
      rw [hv]
      exact hw
  | connects i x y signal target id hx hconnect htarget hv hs hc =>
      rw [hv]
      obtain ⟨hclass, hstored⟩ := World.values_of_connect hconnect
      exact hw.of_values (World.values?_replaceInstance hx hclass hstored)
  | awaits i x y resolve reject ids hx hconnect hv hs hc =>
      rw [hv]
      obtain ⟨hclass, hstored⟩ := World.values_of_connectEvent hconnect
      exact hw.of_values (World.values?_replaceInstance hx hclass hstored)
  | disconnects i id hv hs hc =>
      rw [hv]
      exact hw.of_values fun j => World.values?_modifyInstance _ i j fun x => ⟨rfl, rfl⟩
  | disposes i hv hs hc =>
      rw [hv]
      exact hw.of_values (World.values?_dispose _ i)
  | ends e hv hs hc =>
      rw [hv]
      exact hw
  | turns e e' es handler hs hs' howner hremaining hv =>
      rw [hv]
      exact hw
  | settles e e' stack reply handler event o hm hs hs' howner hremaining hconnected hout hv hc =>
      rw [hv]
      exact hw.of_values (World.values?_settle _ event o)

theorem valid_after (client : Client σ β κ) {m : Machine σ β κ} (h : m.world.Valid) {n : Nat}
    (hbuilt : ∀ k, k < n → ∀ c, (m.after client k).control = .perform (.construct c) →
      c.ofClass.Built) : (m.after client n).world.Valid := by
  induction n with
  | zero => exact h
  | succ n ih =>
      have hn := ih fun k hk => hbuilt k (Nat.lt_succ_of_lt hk)
      have hmove := (deal_advance client _).valid hn (hbuilt n (Nat.lt_succ_self n))
      exact hmove.sheds (Machine.sheds_step client _)

/-- **Stored values are always valid.** In every state of a run that instantiates built classes
only, whatever is written under whatever spelling, also by effects and handlers: the name of every
stored entry is that of a property whose check its value passes, so that no stored double is not a
number; and reading a stored property, written or not, replies a value that passes its own check. -/
theorem stored_values_valid (client : Client σ β κ) (state : σ) (program : β) (n : Nat)
    (hbuilt : ∀ k, k < n → ∀ c,
      ((Machine.initial state program).after client k).control = .perform (.construct c) →
        c.ofClass.Built) :
    let m : Machine σ β κ := (Machine.initial state program).after client n
    ∀ i x, m.world.instance? i = some x →
      (∀ name value, (name, value) ∈ x.stored.entries →
        (∃ spec, x.ofClass.propertySpec? name = some spec ∧
          spec.check m.world.isA value = .ok ()) ∧
        ∀ number, value = .double number → number.isNaN = false) ∧
      (∀ name spec notify equality effect,
        x.ofClass.findProperty? name = some ⟨spec, .stored notify equality effect⟩ →
          ∃ value, m.world.perform (.property i name) = .reply m.world (.value (some value)) ∧
            spec.check m.world.isA value = .ok ()) := by
  intro m i x hx
  have hinitial : (Machine.initial state program : Machine σ β κ).world.Valid :=
    fun i c t hi => (by cases hi)
  have hvalid : m.world.Valid := valid_after client hinitial hbuilt
  obtain ⟨hfiled, hentries⟩ := hvalid i x.ofClass x.stored (World.values?_eq hx)
  refine ⟨fun name value hentry => ?_, fun name spec notify equality effect hfind => ?_⟩
  · obtain ⟨spec, notify, equality, effect, hfind, hcheck⟩ := hentries (name, value) hentry
    refine ⟨⟨spec, ?_, hcheck⟩, ?_⟩
    · simp [Class.propertySpec?, hfind]
    · rintro number rfl
      exact PropertySpec.isNaN_of_check hcheck
  · obtain ⟨hdeclared, hmade⟩ := hfiled.findProperty?_name hfind
    refine ⟨(x.stored.find? spec.name).getD spec.defaultValue, ?_, ?_⟩
    · simp only [World.perform, World.readProperty, hx, hfind]
    · cases hstored : x.stored.find? spec.name with
      | none => exact hmade.check_default _
      | some value =>
          obtain ⟨spec', notify', equality', effect', hfind', hcheck⟩ :=
            hentries _ (NameTable.mem_of_find? hstored)
          cases hdeclared.symm.trans hfind'
          exact hcheck

/-- A class with a level between 0 and 10, declared by its descriptor, and a title that has an
effect. -/
def gauge : Except ClassError (ClassBuilder Nat) := do
  let label : PropertyLabel := ⟨"fill_level", "Level", "", FlagPreset.readWrite.flags⟩
  let level ← (PropertySpec.uint label 0 10 3).mapError fun e =>
    .resolve "Gauge" "fill_level" (.spec e)
  let bare : ClassBuilder Nat := { className := "Gauge" }
  (bare.manual level).stored .builtin "title" .string {} none none (some 1)

def gaugeClass : Class Nat :=
  match gauge.bind (·.finalize .builtin) with
  | .ok (_, c) => c
  | .error _ => .simple .empty [] none

theorem gaugeClass_built : gaugeClass.Built := by
  unfold gaugeClass
  split
  · next r c hc =>
      obtain ⟨b, hb, hfinal⟩ := bind_eq_ok.mp hc
      obtain ⟨level, hlevel, hb⟩ := bind_eq_ok.mp hb
      have hmade : level.Made := .uint (mapError_eq_ok.mp hlevel)
      have hbuilder : b.Made := ((ClassBuilder.Made.new rfl rfl).manual hmade).stored hb
      refine .finalize hbuilder (fun parent hparent => ?_) hfinal
      have hroot : b.parent = none := by
        obtain ⟨spec, -, hspec⟩ := bind_eq_ok.mp hb
        cases hspec
        rfl
      rw [hroot] at hparent
      cases hparent
  · next e he =>
      have hok : (gauge.bind (·.finalize .builtin)).isOk = true := by decide +kernel
      rw [he] at hok
      cases hok

/-- A program that gives the gauge a title, whose effect writes the level under another spelling. -/
def filler : Client Unit Nat (Routine Nat) :=
  .ofRoutines
    (fun
      | 0 => { acts := [.command (.newContext { clock := .manual }),
          .command (.construct { ofClass := gaugeClass, context := ⟨0⟩ }),
          .command (.setProperty ⟨1⟩ "title" (.string "full"))] }
      | _ => { acts := [.command (.setProperty ⟨1⟩ "fill-level" (.uint 7))] })
    [.object ⟨1⟩]

/-- Whether the next step constructs an instance. -/
def Machine.constructs (m : Machine σ β κ) : Bool :=
  match m.control with
  | .perform (.construct _) => true
  | _ => false

set_option maxRecDepth 100000 in
theorem stored_values_valid_filler :
    let m : Machine Unit Nat (Routine Nat) := (Machine.initial () 0).after filler 20
    ∃ x, m.world.instance? ⟨1⟩ = some x ∧
      x.stored.entries = [("fill_level", .uint 7), ("title", .string "full")] ∧
      ∃ spec, x.ofClass.propertySpec? "fill_level" = some spec ∧
        spec.check m.world.isA (.uint 7) = .ok () := by
  intro m
  have hbuilt (k : Nat) (hk : k < 20) (c : Construction Nat)
      (hc : ((Machine.initial () 0).after filler k).control = .perform (.construct c)) :
      c.ofClass.Built := by
    have hmoment : ∀ k, k < 20 →
        ((Machine.initial () 0).after filler k).constructs = true → k = 4 := by decide +kernel
    obtain rfl := hmoment k hk (by rw [Machine.constructs, hc])
    have hgauge : ((Machine.initial () 0).after filler 4).control =
        .perform (.construct { ofClass := gaugeClass, context := ⟨0⟩ }) := by rfl
    cases hgauge.symm.trans hc
    exact gaugeClass_built
  have hentries : (m.world.instance? ⟨1⟩).map (·.stored.entries) =
      some [("fill_level", .uint 7), ("title", .string "full")] := by decide +kernel
  obtain ⟨x, hx, hstored⟩ := Option.map_eq_some_iff.mp hentries
  have hvalid := (stored_values_valid filler () 0 20 hbuilt ⟨1⟩ x hx).1 "fill_level" (.uint 7)
    (by simp [hstored])
  exact ⟨x, hx, hstored, hvalid.1⟩

end ObjectSystem
