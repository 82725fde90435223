import ObjectSystem.Proofs.Ages
import ObjectSystem.Proofs.Effects
import ObjectSystem.Proofs.Refusals

/-!
# Reports of changes

What becomes of a stored property in a run is a story (`Machine.story`): values are stored, the
change signal begins and ends, the effect starts. A property that compares values by identity tells
a story that is determined by the values written to it, the effective policy and the effect
(`Deed.ofWrites`): as long as nothing writes the property while a change of it is reported, the
deeds of one write follow those of the one before. At any moment, the last write may still owe its
last deeds; `Machine.Owes` says which, and what every step preserves.
-/

namespace ObjectSystem

variable {σ β κ : Type}

/-- Storing a value leaves the handlers alone, and so what an emission notes. -/
theorem World.changeEmission_store {w : World β} {i : InstanceId} {x : Instance β}
    (hx : w.instance? i = some x) (name : String) (value : Value) (canonical : String) :
    (w.modifyInstance i (·.store name value)).changeEmission i canonical =
      w.changeEmission i canonical := by
  unfold changeEmission emissionOf
  rw [instance?_modifyInstance, if_pos rfl, hx]
  rfl

/-! ## The deeds of writes -/

/-- Whether a write is reported, given what was stored before, where values are compared by
identity. -/
def NotifyPolicy.reports : NotifyPolicy → Option Value → Value → Bool
  | .always, _, _ => true
  | .onChange, none, _ => true
  | .onChange, some old, value => !old.identical value

/-- What happens to a stored property. -/
inductive Deed (β : Type) where
  | stores (value : Value)
  /-- The change signal begins. -/
  | reports
  /-- The change signal is over. -/
  | reported
  /-- The effect starts, with this value. -/
  | affects (callback : β) (value : Value)
  deriving DecidableEq

namespace Deed

/-- What is left of a write when its report is over, or when there is none. -/
def ofEffect (effect : Option β) (value : Value) : List (Deed β) :=
  effect.toList.map (.affects · value)

/-- What a write does after it has stored its value. -/
def afterStore (policy : NotifyPolicy) (effect : Option β) (old : Option Value) (value : Value) :
    List (Deed β) :=
  if policy.reports old value then .reports :: .reported :: ofEffect effect value
  else ofEffect effect value

/-- What so many writes do, one after the other. -/
def ofWrites (policy : NotifyPolicy) (effect : Option β) : Option Value → List Value → List (Deed β)
  | _, [] => []
  | old, value :: values =>
    .stores value :: afterStore policy effect old value
      ++ ofWrites policy effect (some value) values

theorem ofWrites_concat (policy : NotifyPolicy) (effect : Option β) (old : Option Value)
    (values : List Value) (value : Value) :
    ofWrites policy effect old (values ++ [value]) = ofWrites policy effect old values ++
      .stores value :: afterStore policy effect (values.getLast?.or old) value := by
  induction values generalizing old with
  | nil => simp [ofWrites]
  | cons first values ih =>
      rw [List.cons_append, ofWrites, ih, ofWrites, List.append_assoc, List.getLast?_cons]
      cases values.getLast? <;> rfl

end Deed

/-! ## Stories -/

namespace Machine

/-- A change of a property is being reported, or about to be: its effect waits on the stack. -/
def Reporting (m : Machine σ β κ) (i : InstanceId) (property : String) : Prop :=
  ∃ layer ∈ m.stack, layer.isDue i property = true

instance (m : Machine σ β κ) (i : InstanceId) (property : String) :
    Decidable (m.Reporting i property) :=
  inferInstanceAs (Decidable (∃ layer ∈ m.stack, layer.isDue i property = true))

section
variable (client : Client σ β κ) (m : Machine σ β κ) (i : InstanceId) (property : String)

/-- What the next step does as a write: it stores a value, and the change signal may begin. -/
def writeDeeds : List (Deed β) :=
  match m.written? i property with
  | some value =>
    match (m.step client).stack.head?.bind Layer.emission? with
    | some _ => [.stores value, .reports]
    | none => [.stores value]
  | none => []

/-- The change signal has answered. -/
def reportDeeds : List (Deed β) :=
  match m.control, m.stack with
  | .deliver (.value _), layer :: _ => if layer.isDue i property then [.reported] else []
  | _, _ => []

/-- The effect starts with the next step. -/
def effectDeeds : List (Deed β) :=
  match (m.step client).control with
  | .invoke callback inv =>
    if inv.role = .effect property ∧ inv.self = some i then inv.args.map (.affects callback) else []
  | _ => []

/-- What the next step does to a property. -/
def deeds : List (Deed β) :=
  m.writeDeeds client i property ++ (m.reportDeeds i property ++ m.effectDeeds client i property)

/-- What so many steps do to a property. -/
def story (n : Nat) : List (Deed β) :=
  (List.range n).flatMap fun k => (m.after client k).deeds client i property

theorem story_succ (n : Nat) : m.story client i property (n + 1) =
    m.story client i property n ++ (m.after client n).deeds client i property := by
  unfold story
  rw [List.range_succ, List.flatMap_append, List.flatMap_singleton]

end

section
variable {client : Client σ β κ} {m : Machine σ β κ} {i : InstanceId} {property : String}

theorem not_reporting_iff :
    ¬m.Reporting i property ↔ m.stack.countP (·.isDue i property) = 0 := by
  unfold Reporting
  rw [List.countP_eq_zero]
  simp

theorem writeDeeds_of_none (h : m.written? i property = none) :
    m.writeDeeds client i property = [] := by
  unfold writeDeeds
  rw [h]

/-- The effect of a property starts only if it is on top. -/
theorem effectDeeds_of_top (h : ∀ layer ∈ m.stack.head?, layer.isDue i property = false) :
    m.effectDeeds client i property = [] := by
  unfold effectDeeds
  split
  · next callback inv hc =>
      split
      · next hinv =>
          obtain ⟨j, value, reply, below, hm, hs, hinvocation⟩ := of_starts_effect hc hinv.1
          rw [hinvocation] at hinv
          obtain rfl := Option.some.inj hinv.2
          rw [hs] at h
          simpa [Layer.isDue] using h _ rfl
      · rfl
  · rfl

theorem reportDeeds_of_top (h : ∀ layer ∈ m.stack.head?, layer.isDue i property = false) :
    m.reportDeeds i property = [] := by
  unfold reportDeeds
  split
  · next result layer below hm hs =>
      rw [hs] at h
      rw [h layer rfl]
      rfl
  · rfl

/-- A step that neither writes a property nor finds its effect on top does nothing to it. -/
theorem deeds_of_top (hsilent : m.written? i property = none)
    (h : ∀ layer ∈ m.stack.head?, layer.isDue i property = false) :
    m.deeds client i property = [] := by
  unfold deeds
  rw [writeDeeds_of_none hsilent, reportDeeds_of_top h, effectDeeds_of_top h]
  rfl

/-- What is on top of a stack without effects is none. -/
theorem top_of_countP (stack : List (Layer β κ))
    (h : stack.countP (·.isDue i property) = 0) :
    ∀ layer ∈ stack.head?, layer.isDue i property = false := by
  intro layer hlayer
  have hnone := List.countP_eq_zero.mp h layer (List.mem_of_mem_head? hlayer)
  simpa using hnone

/-! ## What is owed -/

/-- What the last write still owes, the value of which is given. -/
inductive Owes (m : Machine σ β κ) (i : InstanceId) (property : String) (effect : Option β)
    (last : Option Value) : List (Deed β) → Prop
  /-- Nothing: there is no effect on the stack. -/
  | nothing (h : m.stack.countP (·.isDue i property) = 0) : Owes m i property effect last []
  /-- There was nothing to report, and the effect is next. -/
  | effect (value : Value) (hlast : last = some value) (base : List (Layer β κ))
      (hm : m.control = .deliver .proceed)
      (hs : m.stack = .operation (.runEffect i property effect value) :: base)
      (hbase : base.countP (·.isDue i property) = 0) :
      Owes m i property effect last (Deed.ofEffect effect value)
  /-- The change signal has answered, and the effect is next. -/
  | answered (value : Value) (hlast : last = some value) (base : List (Layer β κ))
      (result : Option Value) (hm : m.control = .deliver (.value result))
      (hs : m.stack = .operation (.runEffect i property effect value) :: base)
      (hbase : base.countP (·.isDue i property) = 0) :
      Owes m i property effect last (.reported :: Deed.ofEffect effect value)
  /-- The change signal is in progress. -/
  | signal (value : Value) (hlast : last = some value) (base above : List (Layer β κ))
      (e : Emission β) (calls answers : Nat)
      (hs : m.stack = above ++ .operation (.emission e) ::
        .operation (.runEffect i property effect value) :: base)
      (hbase : base.countP (·.isDue i property) = 0)
      (habove : above.countP (·.isDue i property) = 0)
      (hphase : Emission.Phase m above calls answers) :
      Owes m i property effect last (.reported :: Deed.ofEffect effect value)

namespace Owes

variable {effect : Option β} {last : Option Value} {owed : List (Deed β)}

/-- If no effect is on the stack, nothing is owed. -/
theorem eq_nil (h : m.Owes i property effect last owed) (hnot : ¬m.Reporting i property) :
    owed = [] := by
  cases h with
  | nothing h => rfl
  | effect value hlast base hm hs hbase =>
      exact absurd ⟨_, hs ▸ List.mem_cons_self, Layer.isDue_runEffect ..⟩ hnot
  | answered value hlast base result hm hs hbase =>
      exact absurd ⟨_, hs ▸ List.mem_cons_self, Layer.isDue_runEffect ..⟩ hnot
  | signal value hlast base above e calls answers hs hbase habove hphase =>
      exact absurd ⟨_, hs ▸ List.mem_append_right _ (List.mem_cons_of_mem _ List.mem_cons_self),
        Layer.isDue_runEffect ..⟩ hnot

/-- An effect that is on the stack is the one of the last write. -/
theorem last_of_mem (h : m.Owes i property effect last owed) {f : Option β} {value : Value}
    (hmem : .operation (.runEffect i property f value) ∈ m.stack) :
    f = effect ∧ last = some value := by
  have habsent {layers : List (Layer β κ)} (h : layers.countP (·.isDue i property) = 0) :
      .operation (.runEffect i property f value) ∉ layers :=
    fun hmem => List.countP_eq_zero.mp h _ hmem (Layer.isDue_runEffect ..)
  cases h with
  | nothing h => exact absurd hmem (habsent h)
  | effect v hlast base hm hs hbase =>
      rw [hs] at hmem
      rcases List.mem_cons.mp hmem with heq | hmem
      · cases heq
        exact ⟨rfl, hlast⟩
      · exact absurd hmem (habsent hbase)
  | answered v hlast base result hm hs hbase =>
      rw [hs] at hmem
      rcases List.mem_cons.mp hmem with heq | hmem
      · cases heq
        exact ⟨rfl, hlast⟩
      · exact absurd hmem (habsent hbase)
  | signal v hlast base above e calls answers hs hbase habove hphase =>
      rw [hs] at hmem
      rcases List.mem_append.mp hmem with hmem | hmem
      · exact absurd hmem (habsent habove)
      rcases List.mem_cons.mp hmem with heq | hmem
      · cases heq
      rcases List.mem_cons.mp hmem with heq | hmem
      · cases heq
        exact ⟨rfl, hlast⟩
      · exact absurd hmem (habsent hbase)

variable (last) in
/-- An effect on top starts, and then nothing is owed. -/
theorem of_top (client : Client σ β κ) {value : Value} {base : List (Layer β κ)} {reply : Reply β}
    (hm : m.control = .deliver reply)
    (hs : m.stack = .operation (.runEffect i property effect value) :: base)
    (hbase : base.countP (·.isDue i property) = 0) :
    (m.step client).Owes i property effect last [] ∧
      m.effectDeeds client i property = Deed.ofEffect effect value := by
  have hf : (m.step client).Follows (m.world.runEffect i property effect value) base :=
    follows_resume client hm hs
  unfold effectDeeds
  rw [hf.control]
  cases effect with
  | none => exact ⟨.nothing (hf.stack ▸ hbase), rfl⟩
  | some callback =>
      refine ⟨.nothing ?_, ?_⟩
      · rw [hf.stack]
        exact (List.countP_cons_of_neg Bool.false_ne_true).trans hbase
      · exact if_pos ⟨rfl, rfl⟩

/-- A signal in progress that is told something goes on or answers. -/
theorem of_hearing (client : Client σ β κ) {value : Value} (hlast : last = some value)
    {base : List (Layer β κ)} {e : Emission β} {reply : Reply β} (hm : m.control = .deliver reply)
    (hs : m.stack = .operation (.emission e) ::
      .operation (.runEffect i property effect value) :: base)
    (hbase : base.countP (·.isDue i property) = 0) :
    (m.step client).Owes i property effect last (.reported :: Deed.ofEffect effect value) := by
  rcases advance_hearing client hm hs with ⟨-, hadvance⟩ | ⟨-, p, hturn, hadvance⟩
  · have hf := follows_of_advance client hadvance
    exact .answered value hlast base _ hf.control hf.stack hbase
  · have hf := follows_of_advance client hadvance
    cases hturn with
    | ends hnil => exact .answered value hlast base _ hf.control hf.stack hbase
    | calls h rest callback args heeded hcons hconnected hcall =>
        exact .signal value hlast base [] _ 1 0 hf.stack hbase rfl
          (.starts callback _ h.id rfl rfl hf.control rfl)
    | settles h rest event o hcons hconnected hout =>
        exact .signal value hlast base [] _ 0 0 hf.stack hbase rfl (.waits rfl hf.control rfl)
    | passes h rest hcons hgone =>
        exact .signal value hlast base [] _ 0 0 hf.stack hbase rfl (.waits rfl hf.control rfl)

/-- **A step that does not write the property does what is owed, or nothing.** -/
theorem step (client : Client σ β κ) (h : m.Owes i property effect last owed)
    (hsilent : m.written? i property = none) :
    ∃ owed', (m.step client).Owes i property effect last owed' ∧
      owed = m.deeds client i property ++ owed' := by
  have hcount := countP_isDue_step client hsilent
  cases h with
  | nothing h =>
      rw [deeds_of_top hsilent (top_of_countP _ h)]
      exact ⟨[], .nothing (Nat.le_zero.mp (h ▸ hcount)), rfl⟩
  | effect value hlast base hm hs hbase =>
      obtain ⟨hnext, heffect⟩ := of_top last client hm hs hbase
      refine ⟨[], hnext, ?_⟩
      have hreport : m.reportDeeds i property = [] := by
        unfold reportDeeds
        rw [hm]
      unfold deeds
      rw [writeDeeds_of_none hsilent, hreport, heffect]
      simp
  | answered value hlast base result hm hs hbase =>
      obtain ⟨hnext, heffect⟩ := of_top last client hm hs hbase
      refine ⟨[], hnext, ?_⟩
      have hreport : m.reportDeeds i property = [.reported] := by
        unfold reportDeeds
        rw [hm, hs]
        exact if_pos (Layer.isDue_runEffect ..)
      unfold deeds
      rw [writeDeeds_of_none hsilent, hreport, heffect]
      simp
  | signal value hlast base above e calls answers hs hbase habove hphase =>
      have htop : ∀ layer ∈ m.stack.head?, layer.isDue i property = false := by
        rw [hs]
        cases above with
        | nil =>
            rintro layer ⟨⟩
            rfl
        | cons top above => exact top_of_countP (top :: above) habove
      rw [deeds_of_top hsilent htop]
      refine ⟨_, ?_, rfl⟩
      by_cases hhears : above = [] ∧ ∃ reply, m.control = .deliver reply
      · obtain ⟨rfl, reply, hm⟩ := hhears
        exact of_hearing client hlast hm hs hbase
      · -- what happens above the signal puts no effect there
        have hnot : above = [] → ∀ reply, m.control ≠ .deliver reply :=
          fun ha reply hm => hhears ⟨ha, reply, hm⟩
        obtain ⟨above', hs', hphase', -⟩ := hphase.step client hs hnot
        refine .signal value hlast base above' e calls answers hs' hbase ?_ hphase'
        rw [hs, hs'] at hcount
        simp only [List.countP_append, List.countP_cons, hbase, habove] at hcount
        omega

end Owes

/-! ## Writes -/

/-- What is compared, and by which policy, when a value is stored. -/
theorem changed_iff {w : World β} {x : Instance β} {spec : PropertySpec}
    {equality : Option ObjectEquality} (v : World β)
    (hidentity : equality.getD (w.configOf x).objectEquality = .identity)
    (notify : Option NotifyPolicy) (value : Value) :
    (((match x.stored.find? spec.name with
      | none => true
      | some old => !v.valuesEqual (equality.getD (w.configOf x).objectEquality) old value) ||
        notify.getD (w.configOf x).notifyPolicy = .always) = true) ↔
      (notify.getD (w.configOf x).notifyPolicy).reports (x.stored.find? spec.name) value =
        true := by
  rw [hidentity]
  cases notify.getD (w.configOf x).notifyPolicy <;> cases x.stored.find? spec.name <;>
    simp [NotifyPolicy.reports, World.valuesEqual]

variable (client) in
/-- **A write stores its value**, and the change signal begins if that is to be reported. -/
theorem Owes.of_write {command : Command β} (hm : m.control = .perform command) {x : Instance β}
    {spec : PropertySpec} {notify : Option NotifyPolicy} {equality : Option ObjectEquality}
    {effect : Option β} {value : Value}
    (hidentity : equality.getD (m.world.configOf x).objectEquality = .identity)
    (hwritten : m.written? i spec.name = some value)
    (hf : (m.step client).Follows (m.world.storeValue i x spec notify equality effect value)
      m.stack)
    (hcount : m.stack.countP (·.isDue i spec.name) = 0) :
    ∃ owed, (m.step client).Owes i spec.name effect (some value) owed ∧
      .stores value :: Deed.afterStore (notify.getD (m.world.configOf x).notifyPolicy) effect
        (x.stored.find? spec.name) value = m.deeds client i spec.name ++ owed := by
  have hreport : m.reportDeeds i spec.name = [] := by
    unfold reportDeeds
    rw [hm]
  have heffect (hc : (m.step client).control = .deliver .proceed) :
      m.effectDeeds client i spec.name = [] := by
    unfold effectDeeds
    rw [hc]
  unfold World.storeValue at hf
  extract_lets config v changed at hf
  have hchanged : (changed || notify.getD config.notifyPolicy = .always) = true ↔
      (notify.getD config.notifyPolicy).reports (x.stored.find? spec.name) value = true :=
    changed_iff v hidentity notify value
  unfold deeds writeDeeds Deed.afterStore
  split at hf
  · next hreports =>
      refine ⟨_, .signal value rfl m.stack [] _ 0 0 hf.stack hcount rfl
        (.waits rfl hf.control rfl), ?_⟩
      rw [if_pos (hchanged.mp hreports), hwritten, hf.stack, hreport, heffect hf.control]
      rfl
  · next hquiet =>
      refine ⟨_, .effect value rfl m.stack hf.control hf.stack hcount, ?_⟩
      rw [if_neg fun h => hquiet (hchanged.mpr h), hwritten, hf.stack, hreport,
        heffect hf.control]
      rfl

/-- A change signal begins with a write. It is emitted under the canonical name, to the handlers
that are connected then, and the effect waits until it is over. -/
theorem emits_of_reports (h : Deed.reports ∈ m.deeds client i property) :
    ∃ x spec notify equality effect name value, m.world.instance? i = some x ∧
      x.admitWrite m.world.isA name value = .ok (.stored spec notify equality effect) ∧
      spec.name = property ∧ m.written? i property = some value ∧
      (m.step client).stack =
        .operation (.emission (m.world.changeEmission i spec.canonicalName)) ::
          .operation (.runEffect i property effect value) :: m.stack := by
  unfold deeds at h
  rcases List.mem_append.mp h with hwrite | hother
  · unfold writeDeeds at hwrite
    split at hwrite
    · next value hwritten =>
        obtain ⟨name, x, spec, notify, equality, effect, hm, hx, hadmitted, rfl⟩ :=
          written?_eq_some.mp hwritten
        have hf := follows_store client hm hx hadmitted
        refine ⟨x, spec, notify, equality, effect, name, value, hx, hadmitted, rfl, hwritten, ?_⟩
        unfold World.storeValue at hf
        extract_lets config v changed at hf
        split at hf
        · rw [hf.stack, ← World.changeEmission_store hx spec.name value spec.canonicalName]
          rfl
        · rw [hf.stack] at hwrite
          simp [Progress.proceed, Layer.emission?, Frame.emission?] at hwrite
    · cases hwrite
  · rcases List.mem_append.mp hother with hreport | heffect
    · unfold reportDeeds at hreport
      split at hreport
      · split at hreport <;> simp at hreport
      · cases hreport
    · unfold effectDeeds at heffect
      split at heffect
      · split at heffect <;> simp at heffect
      · cases heffect

/-- An effect waits on the stack only for an instance that has been given out, and, while that
lives, only if there is a stored value. -/
theorem Reachable.stored_of_reporting (hreach : m.Reachable client) (h : m.Reporting i property) :
    i.number < m.world.nextInstance ∧
      ∀ c stored, m.world.values? i = some (c, stored) → stored.find? property ≠ none := by
  induction hreach with
  | initial state callback =>
      obtain ⟨layer, hlayer, -⟩ := h
      cases hlayer
  | @step m hreach ih =>
      have hle : m.world.nextInstance ≤ (m.step client).world.nextInstance :=
        (evolves_step client m).nextInstance
      cases hwritten : m.written? i property with
      | some value =>
          obtain ⟨name, x, spec, notify, equality, effect, hm, hx, -⟩ :=
            written?_eq_some.mp hwritten
          refine ⟨Nat.lt_of_lt_of_le (hreach.alive_lt (World.values?_eq hx)) hle, ?_⟩
          intro c stored hnow
          cases stems_step client hnow with
          | lives before hbefore hstored => rw [hstored, hwritten]; exact Option.some_ne_none value
          | created con hcreates hclass hi hempty => cases hm.symm.trans hcreates
      | none =>
          have hreporting : m.Reporting i property := by
            by_contra hnot
            have hcount := countP_isDue_step client hwritten
            rw [not_reporting_iff.mp hnot] at hcount
            exact not_reporting_iff.mpr (Nat.le_zero.mp hcount) h
          obtain ⟨hlt, hsome⟩ := ih hreporting
          refine ⟨Nat.lt_of_lt_of_le hlt hle, fun c stored hnow => ?_⟩
          cases stems_step client hnow with
          | lives before hbefore hstored =>
              rw [hstored, hwritten]
              exact hsome c before hbefore
          | created con hcreates hclass hi hempty =>
              rw [hi] at hlt
              exact absurd hlt (Nat.lt_irrefl _)

/-- An instance stays on its context, and reads the same configuration. -/
theorem Reachable.configOf_after (hreach : m.Reachable client) {x y : Instance β}
    (hx : m.world.instance? i = some x) {context : MainContext β}
    (hcontext : m.world.context? x.context = some context) {n : Nat}
    (hy : (m.after client n).world.instance? i = some y) :
    (m.after client n).world.configOf y = context.config := by
  have hlt := hreach.alive_lt (World.values?_eq hx)
  obtain ⟨d, hd, hages⟩ := ((ages_after client m (Nat.zero_le n)).ages i _
    (World.duties?_eq hy)).resolve_right (Nat.not_le.mpr hlt)
  cases (World.duties?_eq hx).symm.trans hd
  obtain ⟨t, ht, hconfig⟩ := config_after client hcontext n
  obtain ⟨now, hnow, rfl⟩ := Option.map_eq_some_iff.mp ht
  unfold World.configOf
  rw [show y.context = x.context from hages.context, hnow]
  exact hconfig

end

end Machine

/-! ## The contract of stored properties -/

/-- A write to a stored property is refused or stores. -/
theorem Instance.admitWrite_stored {x : Instance β} (isA : InstanceId → TypeHandle → Bool)
    {name : String} (value : Value) {spec : PropertySpec} {notify : Option NotifyPolicy}
    {equality : Option ObjectEquality} {effect : Option β}
    (hfind : x.ofClass.findProperty? name = some ⟨spec, .stored notify equality effect⟩) :
    (∃ e, x.admitWrite isA name value = .error e) ∨
      x.admitWrite isA name value = .ok (.stored spec notify equality effect) := by
  unfold admitWrite
  rw [hfind]
  dsimp only
  split
  · exact .inl ⟨_, rfl⟩
  · split
    · exact .inl ⟨_, rfl⟩
    · cases spec.check isA value with
      | error e => exact .inl ⟨_, rfl⟩
      | ok _ => exact .inr rfl

/-- What holds of a stored property after so many steps. -/
structure Machine.ReportsChanges (client : Client σ β κ) (m : Machine σ β κ) (i : InstanceId)
    (entry : PropertyEntry β) (policy : NotifyPolicy) (effect : Option β) (n : Nat) : Prop where
  /-- Writes count under every spelling of the name, unless they are refused. -/
  counts : ∀ value, (m.after client n).written? i entry.spec.name = some value ↔
    ∃ name x, (m.after client n).control = .perform (.setProperty i name value) ∧
      (m.after client n).world.instance? i = some x ∧
      x.ofClass.findProperty? name = some entry ∧
      ∀ e, ¬x.Refuses (m.after client n).world.isA name value e
  /-- All writes have been reported as the policy asks for, and then run the effect; but the last
  one may still owe that if its effect is on the stack. -/
  story : ∃ owed, m.story client i entry.spec.name n ++ owed =
      Deed.ofWrites policy effect none (Machine.writes client m i entry.spec.name n) ∧
    (¬(m.after client n).Reporting i entry.spec.name → owed = [])
  /-- A report is an emission of the change signal under the canonical name of the property. -/
  emits : .reports ∈ (m.after client n).deeds client i entry.spec.name →
    ∃ value, (m.after client n).written? i entry.spec.name = some value ∧
      (m.after client (n + 1)).stack =
        .operation (.emission
          ((m.after client n).world.changeEmission i entry.spec.canonicalName)) ::
            .operation (.runEffect i entry.spec.name effect value) :: (m.after client n).stack
  /-- While a value is reported, it is the one that was written last. -/
  told : ∀ f value, .operation (.runEffect i entry.spec.name f value) ∈ (m.after client n).stack →
    (Machine.writes client m i entry.spec.name n).getLast? = some value
  /-- The property reads as the value that was written last, or as its default. -/
  reads : ∀ x name, (m.after client n).world.instance? i = some x →
    x.ofClass.findProperty? name = some entry →
      (m.after client n).world.perform (.property i name) = .reply (m.after client n).world
        (.value (some ((Machine.writes client m i entry.spec.name n).getLast?.getD
          entry.spec.defaultValue)))

namespace Machine

section
variable {client : Client σ β κ} {m : Machine σ β κ} {i : InstanceId} {x : Instance β}
  {entry : PropertyEntry β}

/-- What is known of an instance later: its class, and what it stores. -/
theorem Reachable.later (hreach : m.Reachable client) (hx : m.world.instance? i = some x)
    {property : String} (hfresh : x.stored.find? property = none) {n : Nat} {y : Instance β}
    (hy : (m.after client n).world.instance? i = some y) :
    y.ofClass = x.ofClass ∧
      y.stored.find? property = (writes client m i property n).getLast? := by
  obtain ⟨hclass, hstored⟩ := stored_of_writes hreach (World.values?_eq hx) (World.values?_eq hy)
  refine ⟨hclass, ?_⟩
  rw [hstored, hfresh, Option.or_none]

/-- Which writes count. -/
theorem Reachable.written?_iff (hreach : m.Reachable client) (hx : m.world.instance? i = some x)
    (hfiled : x.ofClass.Filed) {spec : PropertySpec} {notify : Option NotifyPolicy}
    {equality : Option ObjectEquality} {effect : Option β}
    (hentry : entry = ⟨spec, .stored notify equality effect⟩)
    (hdeclared : x.ofClass.findProperty? entry.spec.name = some entry) (n : Nat) (value : Value) :
    (m.after client n).written? i entry.spec.name = some value ↔
      ∃ name y, (m.after client n).control = .perform (.setProperty i name value) ∧
        (m.after client n).world.instance? i = some y ∧
        y.ofClass.findProperty? name = some entry ∧
        ∀ e, ¬y.Refuses (m.after client n).world.isA name value e := by
  constructor
  · intro hwritten
    obtain ⟨-, y, -, -, -, -, -, hy, -⟩ := written?_eq_some.mp hwritten
    obtain ⟨hclass, -⟩ := stored_of_writes hreach (World.values?_eq hx) (World.values?_eq hy)
    obtain ⟨name, notify', equality', effect', hm, hbehaviour, hadmitted, -⟩ :=
      written_to hy (hclass ▸ hfiled) _ (hclass ▸ hdeclared) hwritten
    refine ⟨name, y, hm, hy, ?_, fun e he => ?_⟩
    · rw [(Instance.property_of_admitWrite hadmitted).1, ← hbehaviour]
    · cases hadmitted.symm.trans (Instance.admitWrite_eq_error.mpr he)
  · rintro ⟨name, y, hm, hy, hfind, hadmitted⟩
    subst hentry
    rcases Instance.admitWrite_stored (m.after client n).world.isA value hfind
      with ⟨e, he⟩ | hok
    · exact absurd (Instance.admitWrite_eq_error.mp he) (hadmitted e)
    · exact written?_eq_some.mpr ⟨name, y, spec, notify, equality, effect, hm, hy, hok, rfl⟩

/-- **The story of a property**: what every step preserves, from the first write on. -/
theorem Reachable.owes_after (hreach : m.Reachable client) (hx : m.world.instance? i = some x)
    (hfiled : x.ofClass.Filed) {spec : PropertySpec} {notify : Option NotifyPolicy}
    {equality : Option ObjectEquality} {effect : Option β}
    (hdeclared : x.ofClass.findProperty? spec.name =
      some ⟨spec, .stored notify equality effect⟩)
    {context : MainContext β} (hcontext : m.world.context? x.context = some context)
    (hidentity : equality.getD context.config.objectEquality = .identity)
    (hfresh : x.stored.find? spec.name = none) (n : Nat)
    (halone : ∀ k, k < n → (m.after client k).written? i spec.name ≠ none →
      ¬(m.after client k).Reporting i spec.name) :
    ∃ owed, (m.after client n).Owes i spec.name effect
        (writes client m i spec.name n).getLast? owed ∧
      m.story client i spec.name n ++ owed =
        Deed.ofWrites (notify.getD context.config.notifyPolicy) effect none
          (writes client m i spec.name n) := by
  induction n with
  | zero =>
      have hnone : ¬m.Reporting i spec.name := fun hreporting =>
        (hreach.stored_of_reporting hreporting).2 _ _ (World.values?_eq hx) hfresh
      exact ⟨[], .nothing (not_reporting_iff.mp hnone), rfl⟩
  | succ n ih =>
      obtain ⟨owed, howes, hstory⟩ := ih fun k hk => halone k (Nat.lt_succ_of_lt hk)
      rw [story_succ, writes_succ]
      cases hwritten : (m.after client n).written? i spec.name with
      | none =>
          -- what the step does is the first of what is owed
          obtain ⟨owed', hnext, hsplit⟩ := howes.step client hwritten
          rw [Option.toList_none, List.append_nil]
          refine ⟨owed', hnext, ?_⟩
          rw [← hstory, hsplit, List.append_assoc]
      | some value =>
          -- nothing is owed when a write comes
          have hnot := halone n (Nat.lt_succ_self n) (by rw [hwritten]; exact Option.some_ne_none _)
          obtain rfl := howes.eq_nil hnot
          rw [List.append_nil] at hstory
          obtain ⟨-, y, -, -, -, -, -, hy, -⟩ := written?_eq_some.mp hwritten
          obtain ⟨hclass, hstored⟩ := hreach.later hx hfresh hy
          obtain ⟨name, _, _, _, hm, hbehaviour, hadmitted, -⟩ := written_to hy (hclass ▸ hfiled)
            ⟨spec, .stored notify equality effect⟩ (hclass ▸ hdeclared) hwritten
          cases hbehaviour
          have hconfig := hreach.configOf_after hx hcontext hy
          obtain ⟨owed, hnext, hdeeds⟩ := Owes.of_write client hm (by rwa [hconfig])
            hwritten (follows_store client hm hy hadmitted) (not_reporting_iff.mp hnot)
          rw [hconfig, hstored] at hdeeds
          rw [Option.toList_some, List.getLast?_concat]
          refine ⟨owed, hnext, ?_⟩
          rw [List.append_assoc, ← hdeeds, hstory, Deed.ofWrites_concat, Option.or_none]

end

end Machine

/-- **Reports of changes count changes.** A stored property of a live instance that has no value yet
and compares values by identity reports writes as its policy asks for, or else that of the context:
every write, or the first one and each that is not identical to the one before. A report begins when
the value is stored, and the effect runs once for each write, with its value, when the report is
over. This presupposes that nothing writes the property while a change of it is reported: no handler
of the report does, nor anything that a handler runs. -/
theorem change_reports_count_changes (client : Client σ β κ) (m : Machine σ β κ)
    (hreach : m.Reachable client) (i : InstanceId) (x : Instance β)
    (hx : m.world.instance? i = some x) (hfiled : x.ofClass.Filed) (name : String)
    (spec : PropertySpec) (notify : Option NotifyPolicy) (equality : Option ObjectEquality)
    (effect : Option β)
    (hfind : x.ofClass.findProperty? name = some ⟨spec, .stored notify equality effect⟩)
    (context : MainContext β) (hcontext : m.world.context? x.context = some context)
    (hidentity : equality.getD context.config.objectEquality = .identity)
    (hfresh : x.stored.find? spec.name = none) (n : Nat)
    (halone : ∀ k, k < n → (m.after client k).written? i spec.name ≠ none →
      ¬(m.after client k).Reporting i spec.name) :
    m.ReportsChanges client i ⟨spec, .stored notify equality effect⟩
      (notify.getD context.config.notifyPolicy) effect n := by
  have hdeclared := (hfiled.findProperty?_name hfind).1
  obtain ⟨owed, howes, hstory⟩ := hreach.owes_after hx hfiled hdeclared hcontext hidentity hfresh n
    halone
  refine ⟨hreach.written?_iff hx hfiled rfl hdeclared n,
    ⟨owed, hstory, howes.eq_nil⟩, fun hreports => ?_,
    fun f value hmem => (howes.last_of_mem hmem).2, fun y name' hy hfind' => ?_⟩
  · obtain ⟨y, spec', notify', equality', effect', name', value, hy, hadmitted, hname, hwritten,
      hs⟩ := Machine.emits_of_reports hreports
    obtain ⟨hclass, -⟩ := hreach.later hx hfresh hy
    have hentry := (Instance.property_of_admitWrite hadmitted).1
    have hsame := ((hclass.symm ▸ hfiled).findProperty?_name hentry).1
    dsimp only at hsame
    rw [hname, hclass] at hsame
    cases hdeclared.symm.trans hsame
    exact ⟨value, hwritten, hs⟩
  · simp only [World.perform, World.readProperty, hy, hfind']
    rw [(hreach.later hx hfresh hy).2]

/-- A program that is told of new titles, and sets one, the same again, what is no title, and
another. -/
def announcer : Client Unit Nat (Routine Nat) :=
  .ofRoutines
    (fun
      | 0 => { acts := [.command (.newContext { clock := .manual }),
          .command (.construct { ofClass := gaugeClass, context := ⟨0⟩ }),
          .command (.connectNotify ⟨1⟩ (some "title") 2),
          .command (.setProperty ⟨1⟩ "title" (.string "full")),
          .command (.setProperty ⟨1⟩ "title" (.string "full")),
          .command (.setProperty ⟨1⟩ "title" (.uint 3)),
          .command (.setProperty ⟨1⟩ "title" (.string "empty"))] }
      | _ => {})
    [.object ⟨1⟩]

/-- A state of the run of `announcer`. -/
def announcerAfter (n : Nat) : Machine Unit Nat (Routine Nat) :=
  (Machine.initial () 0).after announcer n

set_option maxRecDepth 100000 in
/-- Three titles are set; the first and the last are reported, and each has its effect. -/
theorem change_reports_count_changes_announcer :
    (announcerAfter 10).story announcer ⟨1⟩ "title" 27 =
      [.stores (.string "full"), .reports, .reported, .affects 1 (.string "full"),
        .stores (.string "full"), .affects 1 (.string "full"),
        .stores (.string "empty"), .reports, .reported, .affects 1 (.string "empty")] := by
  obtain ⟨x, context, spec, hx, hclass, hname, hfind, hcontext, hidentity, hpolicy, hfresh⟩ :
      ∃ (x : Instance Nat) (context : MainContext Nat) (spec : PropertySpec),
        (announcerAfter 10).world.instance? ⟨1⟩ = some x ∧ x.ofClass = gaugeClass ∧
        spec.name = "title" ∧
        x.ofClass.findProperty? "title" = some ⟨spec, .stored none none (some 1)⟩ ∧
        (announcerAfter 10).world.context? x.context = some context ∧
        context.config.objectEquality = .identity ∧ context.config.notifyPolicy = .onChange ∧
        x.stored.find? spec.name = none :=
    ⟨_, _, _, rfl, rfl, rfl, rfl, rfl, rfl, rfl, rfl⟩
  have halone : ∀ k, k < 27 → ((announcerAfter 10).after announcer k).written? ⟨1⟩ "title" ≠ none →
      ¬((announcerAfter 10).after announcer k).Reporting ⟨1⟩ "title" := by decide +kernel
  have hover : ¬((announcerAfter 10).after announcer 27).Reporting ⟨1⟩ "title" := by decide +kernel
  have hwrites : Machine.writes announcer (announcerAfter 10) ⟨1⟩ "title" 27 =
      [.string "full", .string "full", .string "empty"] := by decide +kernel
  rw [← hname] at halone hover hwrites ⊢
  obtain ⟨owed, hstory, hnothing⟩ := (change_reports_count_changes announcer (announcerAfter 10)
    ((Machine.Reachable.initial () 0).after 10) ⟨1⟩ x hx (hclass ▸ gaugeClass_built.filed) "title"
    spec none none (some 1) hfind context hcontext hidentity hfresh 27 halone).story
  rw [hnothing hover, List.append_nil, hwrites] at hstory
  rw [hstory, Option.getD_none, hpolicy]
  decide

end ObjectSystem
