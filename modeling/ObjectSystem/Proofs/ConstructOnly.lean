import ObjectSystem.Proofs.Ages
import ObjectSystem.Proofs.Gates
import ObjectSystem.Proofs.Pending

/-!
# Construct-only properties

A construct-only property is to be written during construction only. The gate of an instance is open
while its construct properties are written, and closed before its init hooks run. No instance is
under construction twice, and once its construction is over no step touches its gate
(`Machine.gates_step`, `Machine.Building.step`): it is closed if the construction has succeeded, and
stays open for ever if it has failed.

Only stored properties look at the gate. A computed property with a setter can be written at any time
(`written_after_construction`), and so can a stored one of an instance whose construction has failed.
`construct_only_writes` says exactly which writes are refused.
-/

namespace ObjectSystem

variable {σ β κ : Type}

/-! ## Constructions in progress -/

/-- The instance that an operation constructs. -/
def Frame.site? : Frame β → Option InstanceId
  | .constructing i _ | .initializing i _ => some i
  | _ => none

theorem Frame.IsConstruction.site {f : Frame β} {i : InstanceId} (h : f.IsConstruction i) :
    f.site? = some i := by
  cases f with
  | constructing j properties => exact congrArg some h
  | initializing j hooks => exact congrArg some h
  | _ => exact h.elim

namespace Machine

/-- The instances that are under construction, the innermost first. -/
def sites (stack : List (Layer β κ)) : List InstanceId :=
  (marks stack).filterMap Frame.site?

theorem sites_append (above stack : List (Layer β κ)) :
    sites (above ++ stack) = sites above ++ sites stack := by
  unfold sites
  rw [marks_append, List.filterMap_append]

@[simp] theorem sites_constructing (i : InstanceId) (properties : List (String × Value))
    (stack : List (Layer β κ)) :
    sites (.operation (.constructing i properties) :: stack) = i :: sites stack := rfl

/-- A turn begins the construction of a new instance, ends the innermost one, or does neither. -/
inductive Erects (m m' : Machine σ β κ) : Prop
  | keeps (h : sites m'.stack = sites m.stack)
  | begins (h : sites m'.stack = ⟨m.world.nextInstance⟩ :: sites m.stack)
      (hnext : m'.world.nextInstance = m.world.nextInstance + 1)
  | ends (i : InstanceId) (h : sites m.stack = i :: sites m'.stack)

theorem erects_of_turn {m m' : Machine σ β κ} (h : Turn m m') : Erects m m' := by
  cases h with
  | creates ofClass c hw hs hc =>
      rcases hs with hs | ⟨g, hg, hs⟩
      · exact .keeps (by simp [sites, hs])
      · exact .begins (by simp [sites, hs, hg.site]) hw.nextInstance
  | constructs f rest i hf hw hs hs' hc =>
      rcases hs' with hs' | ⟨g, hg, hs'⟩
      · exact .ends i (by simp [sites, hs, hs', hf.site])
      · exact .keeps (by simp [sites, hs, hs', hf.site, hg.site])
  | schedules i x hx hw hs hc => exact .ends i (by simp [sites, hs, Frame.site?])
  -- marks of any other kind are no sites
  | callsAtOnce i name args x callback debounce hm hx hd hf hr hw hs hc =>
      exact .keeps (by simp [sites, hs, List.filterMap_cons, Frame.site?])
  | startsInterval i name debounce callback hw hs hc =>
      exact .keeps (by simp [sites, hs, List.filterMap_cons, Frame.site?])
  | collects c x worked hx hw hs hc =>
      exact .keeps (by simp [sites, hs, List.filterMap_cons, Frame.site?])
  | skips c id ready worked rest hx hw hs hs' hc =>
      exact .keeps (by simp [sites, hs, hs', List.filterMap_cons, Frame.site?])
  | begins c id ready worked rest x y work hx hb hw hs hs' hc =>
      exact .keeps (by simp [sites, hs, hs', List.filterMap_cons, Frame.site?])
  | ends c id mayStay stays hstay hw hs hc =>
      exact .keeps (by simp [sites, hs, List.filterMap_cons, Frame.site?])
  | closes c worked hw hs hc => exact .keeps (by simp [sites, hs, List.filterMap_cons, Frame.site?])
  | still hw hs hc | opens config hw hs hc | ticks c now hm hw hs hc
  | attaches c x kind priority work hx hp hw hs hc | detaches c x id hm hx hw hs hc
  | disposes i hm hw hs hc | calls i name args x callback hm hx hd hf hw hs hc
  | callsLater i name args x callback debounce hm hx hd hf hr hw hs hc =>
      exact .keeps (by simp [sites, hs])

variable {client : Client σ β κ} {m : Machine σ β κ}

/-- No instance is under construction twice, and each has its identity. -/
theorem Reachable.sites (hreach : m.Reachable client) :
    (sites m.stack).Nodup ∧ ∀ i ∈ Machine.sites m.stack, i.number < m.world.nextInstance := by
  induction hreach with
  | initial state callback => exact ⟨.nil, fun i hi => (by cases hi)⟩
  | @step m _ ih =>
      obtain ⟨hnodup, hgiven⟩ := ih
      have hnext := (turn_step client m).ages.next
      cases erects_of_turn (turn_step client m) with
      | keeps h =>
          rw [h]
          exact ⟨hnodup, fun i hi => Nat.lt_of_lt_of_le (hgiven i hi) hnext⟩
      | begins h hnext' =>
          rw [h, hnext']
          refine ⟨List.nodup_cons.mpr ⟨fun hi => Nat.lt_irrefl _ (hgiven _ hi), hnodup⟩, ?_⟩
          refine List.forall_mem_cons.mpr ⟨Nat.lt_succ_self _, fun i hi => ?_⟩
          exact Nat.lt_succ_of_lt (hgiven i hi)
      | ends i h =>
          rw [h] at hnodup hgiven
          exact ⟨(List.nodup_cons.mp hnodup).2, fun j hj =>
            Nat.lt_of_lt_of_le (hgiven j (List.mem_cons_of_mem i hj)) hnext⟩

/-- The construction of an instance does not begin twice. -/
theorem not_mem_sites_step {i : InstanceId} (hi : i.number < m.world.nextInstance)
    (hsite : i ∉ Machine.sites m.stack) : i ∉ Machine.sites (m.step client).stack := by
  cases erects_of_turn (turn_step client m) with
  | keeps h => exact h ▸ hsite
  | begins h hnext =>
      rw [h, List.mem_cons, not_or]
      refine ⟨?_, hsite⟩
      rintro rfl
      exact Nat.lt_irrefl _ hi
  | ends j h =>
      rw [h] at hsite
      exact fun hmem => hsite (List.mem_cons_of_mem j hmem)

/-- Above a construction of an instance there is no other one of the same instance. -/
theorem Reachable.not_mem_sites (hreach : m.Reachable client) {above base : List (Layer β κ)}
    {i : InstanceId} {properties : List (String × Value)}
    (hs : m.stack = above ++ .operation (.constructing i properties) :: base) :
    i ∉ Machine.sites above := by
  have hnodup := hreach.sites.1
  rw [hs, sites_append, sites_constructing] at hnodup
  exact fun hi => (List.nodup_append.mp hnodup).2.2 i hi i List.mem_cons_self rfl

/-! ## Gates in a run -/

/-- A gate changes only when the last construct property of its instance has been written. -/
theorem gates_step {i : InstanceId} (hi : i.number < m.world.nextInstance) {b : Bool}
    (hb : (m.step client).world.gates i = some b) :
    m.world.gates i = some b ∨
      b = false ∧ ∃ reply stack, m.control = .deliver reply ∧
        m.stack = .operation (.constructing i []) :: stack := by
  replace hb := (fades_step client m).gates hb
  cases gating_advance client m with
  | keeps h =>
      rw [h] at hb
      exact .inl hb
  | creates con hm h =>
      have hne : i ≠ ⟨m.world.nextInstance⟩ := by
        rintro rfl
        exact Nat.lt_irrefl _ hi
      rw [h, World.gates_addInstance, if_neg hne, Option.or_none] at hb
      exact .inl hb
  | closes j reply stack hm hs h =>
      rw [h, World.gates_close] at hb
      split at hb
      · next hij =>
          obtain ⟨_, -, rfl⟩ := Option.map_eq_some_iff.mp hb
          exact .inr ⟨rfl, reply, stack, hm, hij ▸ hs⟩
      · exact .inl hb

/-- After a step of an operation, gates are as the operation leaves them. -/
theorem gates_resume {f : Frame β} {reply : Reply β} {stack : List (Layer β κ)}
    (hm : m.control = .deliver reply) (hs : m.stack = .operation f :: stack) {i : InstanceId}
    {b : Bool} (hb : (m.step client).world.gates i = some b) :
    (f.resume m.world reply).world.gates i = some b := by
  have h := (fades_step client m).gates hb
  rw [advance_resume client hm hs] at h
  exact h

/-- How a construction has ended: with the instance and its gate closed, or with an error and its
gate open. It says nothing if the instance is not there. -/
def Built (i : InstanceId) (reply : Reply β) (m : Machine σ β κ) : Prop :=
  ∀ b, m.world.gates i = some b →
    b = false ∧ reply = .object i ∨ b = true ∧ ∃ e, reply = .failed (.construct e)

/-- Once the construction is over, the gate stays as it is. -/
theorem Built.step {i : InstanceId} {reply : Reply β} (h : Built i reply m)
    (hi : i.number < m.world.nextInstance) (hsite : i ∉ Machine.sites m.stack) :
    Built i reply (m.step client) := by
  intro b hb
  rcases gates_step hi hb with hb | ⟨-, _, stack, -, hs⟩
  · exact h b hb
  · exact absurd (by rw [hs]; exact List.mem_cons_self) hsite

/-- The construction of an instance is in progress on some layers. -/
inductive Building (i : InstanceId) (base : List (Layer β κ)) (m : Machine σ β κ) : Prop
  /-- Construct properties are written. -/
  | writes (above : List (Layer β κ)) (properties : List (String × Value))
      (hs : m.stack = above ++ .operation (.constructing i properties) :: base)
      (hopen : m.world.gates i ≠ some false)
  /-- It has failed at a child. -/
  | fails (held : List Handle) (e : ConstructError) (hs : m.stack = .operation (.letGo held) :: base)
      (hm : m.control = .deliver (.failed (.construct e))) (hopen : m.world.gates i ≠ some false)
  /-- Init hooks run. -/
  | initializes (above : List (Layer β κ)) (hooks : List (String × β))
      (hs : m.stack = above ++ .operation (.initializing i hooks) :: base)
      (hclosed : m.world.gates i ≠ some true)

namespace Building

variable {i : InstanceId} {base : List (Layer β κ)}

theorem length_lt (h : Building i base m) : base.length < m.stack.length := by
  cases h with
  | writes above properties hs hopen => simp [hs]; omega
  | fails held e hs hm hopen => simp [hs]
  | initializes above hooks hs hclosed => simp [hs]; omega

theorem of_construct {con : Construction β} (hm : m.control = .perform (.construct con))
    (hclass : con.ofClass.own.flags.isAbstract = false)
    (hnew : m.world.gates ⟨m.world.nextInstance⟩ = none) :
    Building ⟨m.world.nextInstance⟩ m.stack (m.step client) := by
  have hopen : (m.step client).world.gates ⟨m.world.nextInstance⟩ ≠ some false := by
    intro hb
    replace hb := (fades_step client m).gates hb
    rw [advance_perform client hm] at hb
    have hgates : (m.world.construct con).world.gates = _ := (m.world.bypasses_construct con).gates
    rw [hclass] at hgates
    change (m.world.construct con).world.gates _ = _ at hb
    rw [hgates, if_neg Bool.false_ne_true, World.gates_addInstance, hnew, if_pos rfl] at hb
    cases hb
  have hf : (m.step client).Follows (m.world.construct con) m.stack := follows_perform client hm
  unfold World.construct at hf
  rw [hclass] at hf
  dsimp only at hf
  rw [if_neg Bool.false_ne_true] at hf
  split at hf
  · exact .writes [] con.properties hf.stack hopen
  · exact .fails _ _ hf.stack hf.control hopen

/-- The construct properties that are left are written, or the gate is closed. -/
theorem of_constructing {properties : List (String × Value)} {reply : Reply β}
    (hm : m.control = .deliver reply)
    (hs : m.stack = .operation (.constructing i properties) :: base)
    (hopen : m.world.gates i ≠ some false) :
    Building i base (m.step client) ∨ (m.step client).stack = base ∧
      ∃ reply', (m.step client).control = .deliver reply' ∧ Built i reply' (m.step client) := by
  have hf : (m.step client).Follows (m.world.continueConstructing i properties reply) base :=
    follows_resume client hm hs
  have hgates (b : Bool) (hb : (m.step client).world.gates i = some b) :
      (m.world.continueConstructing i properties reply).world.gates i = some b :=
    gates_resume hm hs hb
  generalize hp : m.world.continueConstructing i properties reply = p at hf hgates
  unfold World.continueConstructing at hp
  split at hp
  · next e =>
      subst hp
      refine .inr ⟨hf.stack, _, hf.control, fun b hb => .inr ⟨?_, _, rfl⟩⟩
      cases b with
      | true => rfl
      | false => exact absurd (hgates _ hb) hopen
  · cases properties with
    | cons property rest =>
        subst hp
        exact .inl (.writes [] rest hf.stack fun hb => hopen (hgates _ hb))
    | nil =>
        dsimp only at hp
        split at hp
        · next hnone =>
            -- the instance is gone
            subst hp
            refine .inr ⟨hf.stack, _, hf.control, fun b hb => ?_⟩
            have hgate : m.world.gates i = some b := hgates b hb
            rw [World.gates, hnone] at hgate
            cases hgate
        · next x hx =>
            subst hp
            refine .inl (.initializes [] (World.initHooks x) hf.stack fun hb => ?_)
            have hgate : (World.modifyInstance m.world i fun x =>
              { x with constructing := false }).gates i = some true := hgates _ hb
            rw [World.gates_close, if_pos rfl] at hgate
            obtain ⟨_, -, hfalse⟩ := Option.map_eq_some_iff.mp hgate
            cases hfalse

/-- The next init hook runs, or the instance is there. -/
theorem of_initializing {hooks : List (String × β)} {reply : Reply β}
    (hm : m.control = .deliver reply)
    (hs : m.stack = .operation (.initializing i hooks) :: base)
    (hclosed : m.world.gates i ≠ some true) :
    Building i base (m.step client) ∨ (m.step client).stack = base ∧
      ∃ reply', (m.step client).control = .deliver reply' ∧ Built i reply' (m.step client) := by
  have hf : (m.step client).Follows (m.world.continueInitializing i hooks) base :=
    follows_resume client hm hs
  have hgates (b : Bool) (hb : (m.step client).world.gates i = some b) :
      m.world.gates i = some b := by
    have h : (m.world.continueInitializing i hooks).world.gates i = some b :=
      gates_resume hm hs hb
    rwa [(m.world.sidesteps_continueInitializing i hooks).gates] at h
  unfold World.continueInitializing at hf
  cases hooks with
  | cons hook rest => exact .inl (.initializes [] rest hf.stack fun hb => hclosed (hgates _ hb))
  | nil =>
      dsimp only at hf
      split at hf
      · next hnone =>
          -- the instance is gone
          refine .inr ⟨hf.stack, _, hf.control, fun b hb => ?_⟩
          have hgate := hgates b hb
          rw [World.gates, hnone] at hgate
          cases hgate
      · refine .inr ⟨hf.stack, _, hf.control, fun b hb => .inl ⟨?_, rfl⟩⟩
        cases b with
        | true => exact absurd (hgates _ hb) hclosed
        | false => rfl

/-- A construction in progress goes on, or ends with a reply. -/
theorem step (h : Building i base m) (hreach : m.Reachable client)
    (hi : i.number < m.world.nextInstance) :
    Building i base (m.step client) ∨ (m.step client).stack = base ∧
      ∃ reply, (m.step client).control = .deliver reply ∧ Built i reply (m.step client) := by
  cases h with
  | writes above properties hs hopen =>
      by_cases hturn : above = [] ∧ ∃ reply, m.control = .deliver reply
      · obtain ⟨rfl, reply, hm⟩ := hturn
        exact of_constructing hm hs hopen
      · rcases stays_or_resumes client hs with ⟨above', hs'⟩ | ⟨reply, hnil, hm, -⟩
        · refine .inl (.writes above' properties hs' fun hb => ?_)
          rcases gates_step hi hb with hb | ⟨-, reply, stack, hm, hs''⟩
          · exact hopen hb
          · -- no other construction of this instance is on top
            have hsite := hreach.not_mem_sites hs
            cases above with
            | nil => exact hturn ⟨rfl, reply, hm⟩
            | cons layer above =>
                obtain ⟨rfl, -⟩ := List.cons.inj (hs''.symm.trans hs)
                exact hsite List.mem_cons_self
        · exact absurd ⟨hnil, reply, hm⟩ hturn
  | fails held e hs hm hopen =>
      have hf : (m.step client).Follows (.reply m.world (.failed (.construct e))) base :=
        follows_resume client hm hs
      refine .inr ⟨hf.stack, _, hf.control, fun b hb => .inr ⟨?_, e, rfl⟩⟩
      cases b with
      | true => rfl
      | false => exact absurd (gates_resume hm hs hb) hopen
  | initializes above hooks hs hclosed =>
      rcases stays_or_resumes client hs with ⟨above', hs'⟩ | ⟨reply, rfl, hm, -⟩
      · refine .inl (.initializes above' hooks hs' fun hb => ?_)
        rcases gates_step hi hb with hb | ⟨hfalse, -⟩
        · exact hclosed hb
        · cases hfalse
      · exact of_initializing hm hs hclosed

end Building

theorem nextInstance_construct (w : World β) {con : Construction β}
    (hclass : con.ofClass.own.flags.isAbstract = false) :
    (w.construct con).world.nextInstance = w.nextInstance + 1 := by
  unfold World.construct
  rw [hclass, if_neg Bool.false_ne_true]
  dsimp only
  split
  · exact (World.spares_initializeLevels _ _ _).nextInstance
  · rfl

/-- When the construction of an instance is over, its gate is closed, or the construction has failed;
and so it stays. -/
theorem built_after (hreach : m.Reachable client) {con : Construction β}
    (hm : m.control = .perform (.construct con))
    (hclass : con.ofClass.own.flags.isAbstract = false) {reply : Reply β} {k : Nat}
    (hbuilt : m.Answers client (.construct con) reply k) {n : Nat} (hk : k ≤ n) :
    Built ⟨m.world.nextInstance⟩ reply (m.after client n) := by
  set i : InstanceId := ⟨m.world.nextInstance⟩ with hi
  have hasking := asking_eq hm
  have hnew : m.world.gates i = none := by
    cases hgate : m.world.gates i with
    | none => rfl
    | some b =>
        obtain ⟨x, hx, -⟩ := Option.map_eq_some_iff.mp hgate
        exact absurd (hreach.tracked.created i x.duties (World.duties?_eq hx)) (Nat.lt_irrefl _)
  have hfirst : Building i m.stack (m.step client) := Building.of_construct hm hclass hnew
  have hgiven (j : Nat) (hj : 0 < j) : i.number < (m.after client j).world.nextInstance := by
    have hnext : (m.after client 1).world.nextInstance = m.world.nextInstance + 1 :=
      (follows_perform client hm).world.nextInstance.trans (nextInstance_construct m.world hclass)
    have hmono := (ages_after client m (show 1 ≤ j from hj)).next
    rw [hnext] at hmono
    exact hmono
  -- the construction is in progress until it is answered
  have hend := hbuilt.ends
    (P := fun j => 0 < j ∧ Building i m.stack (m.after client j))
    (Q := fun j => (m.after client j).stack = m.stack ∧
      ∃ reply', (m.after client j).control = .deliver reply' ∧ Built i reply' (m.after client j))
    (.inl ⟨Nat.one_pos, hfirst⟩)
    (fun j ⟨hpos, hj⟩ => (hj.step (hreach.after j) (hgiven j hpos)).imp (⟨Nat.succ_pos j, ·⟩) id)
    (fun j hj => by rw [hasking]; exact hj.2.length_lt)
    (fun j hj => by rw [hasking]; exact hj.1)
  obtain ⟨hstack, reply', hcontrol, hdone⟩ := hend
  rw [← hasking] at hcontrol
  obtain rfl : reply' = reply := by
    have heq := hcontrol.symm.trans hbuilt.control
    cases heq
    rfl
  suffices i ∉ Machine.sites (m.after client n).stack ∧ Built i reply' (m.after client n) from this.2
  induction hk with
  | refl =>
      refine ⟨fun hmem => ?_, hdone⟩
      rw [hstack] at hmem
      exact Nat.lt_irrefl _ (hreach.sites.2 i hmem)
  | @step n hkn ih =>
      have hpos : 0 < n := Nat.lt_of_lt_of_le hbuilt.pos hkn
      exact ⟨not_mem_sites_step (hgiven n hpos) ih.1, ih.2.step (hgiven n hpos) ih.1⟩

end Machine

/-! ## Writes that are refused -/

theorem World.control_storeValue (w : World β) (i : InstanceId) (x : Instance β)
    (spec : PropertySpec) (notify : Option NotifyPolicy) (equality : Option ObjectEquality)
    (effect : Option β) (value : Value) :
    (w.storeValue i x spec notify equality effect value).control = .deliver .proceed :=
  storeValue_cases (P := fun p => p.control = .deliver .proceed) w i x spec notify equality effect
    value rfl rfl

namespace Machine

variable {client : Client σ β κ} {m : Machine σ β κ}

/-- The next step refuses to write a property: it fails, it runs nothing, and what instances store is
what they stored before. -/
structure Refuses (client : Client σ β κ) (m : Machine σ β κ) : Prop where
  control : ∃ e, (m.step client).control = .deliver (.failed (.property e))
  stack : (m.step client).stack = m.stack
  kept : ∀ j y, (m.step client).world.instance? j = some y →
    ∃ x, m.world.instance? j = some x ∧ y.stored = x.stored ∧ y.fields = x.fields

/-- A write is refused exactly if it is not admitted. -/
theorem refuses_iff {i : InstanceId} {name : String} {value : Value}
    (hm : m.control = .perform (.setProperty i name value)) {x : Instance β}
    (hx : m.world.instance? i = some x) :
    m.Refuses client ↔ ∃ e, x.admitWrite m.world.isA name value = .error e := by
  have hf : (m.step client).Follows (m.world.writeProperty i name value) m.stack :=
    follows_perform client hm
  have hfades := fades_step client m
  rw [advance_perform client hm] at hfades
  change World.Fades (m.world.writeProperty i name value).world _ at hfades
  unfold World.writeProperty at hf hfades
  rw [hx] at hf hfades
  dsimp only at hf hfades
  cases hwrite : x.admitWrite m.world.isA name value with
  | error e =>
      rw [hwrite] at hf hfades
      refine iff_of_true ⟨⟨e, hf.control⟩, hf.stack, fun j y hy => ?_⟩ ⟨e, rfl⟩
      obtain ⟨z, hz, hyz⟩ := hfades.instances j y hy
      exact ⟨z, hz, by rw [hyz], by rw [hyz]⟩
  | ok write =>
      rw [hwrite] at hf
      refine iff_of_false (fun ⟨⟨e, he⟩, _, _⟩ => ?_) (fun ⟨e, he⟩ => by cases he)
      rw [hf.control] at he
      cases write with
      | setter callback => cases he
      | computed spec callback => cases he
      | stored spec notify equality effect =>
          rw [World.control_storeValue] at he
          cases he

end Machine

/-- Whether fitting values can be written to a construct-only property, given whether the gate of the
instance is open: one that is computed must have a setter; one that is stored must be writable, and
the gate open. -/
def Class.Admits (c : Class β) (entry : PropertyEntry β) (gate : Prop) : Prop :=
  match entry.behaviour with
  | .computed _ _ => (c.findSetter? entry.spec.name).isSome = true
  | .stored _ _ _ => entry.spec.flags.writable = true ∧ gate

/-- Which writes to a construct-only property are admitted. -/
theorem Instance.admitWrite_ok_iff {x : Instance β} {isA : InstanceId → TypeHandle → Bool}
    {name : String} {value : Value} {spec : PropertySpec} {behaviour : PropertyBehaviour β}
    (hfind : x.ofClass.findProperty? name = some ⟨spec, behaviour⟩)
    (honly : spec.flags.constructOnly = true) :
    (∃ write, x.admitWrite isA name value = .ok write) ↔
      spec.check isA value = .ok () ∧ x.ofClass.Admits ⟨spec, behaviour⟩ (x.constructing = true) := by
  unfold admitWrite Class.Admits
  rw [hfind]
  cases behaviour with
  | computed getter field =>
      dsimp only
      cases x.ofClass.findSetter? spec.name with
      | none => simp
      | some callback =>
          cases spec.check isA value <;>
            simp [bind, pure, Except.bind, Except.pure, Except.mapError]
  | stored notify equality effect =>
      dsimp only
      rw [honly]
      cases spec.flags.writable <;> cases x.constructing <;> cases spec.check isA value <;>
        simp [bind, pure, Except.bind, Except.pure, Except.mapError]

/-- **When construct-only properties are closed.** When the construction of an instance is over, with
the instance or with an error, a write to a construct-only property of it, under any spelling and
by whomever, is refused unless the value fits and

* the property is computed and has a setter, or
* the property is stored and writable, and the construction has failed.

A write that is refused runs nothing and leaves all that instances store as it was. -/
theorem construct_only_writes (client : Client σ β κ) (m : Machine σ β κ)
    (hreach : m.Reachable client) (con : Construction β)
    (hm : m.control = .perform (.construct con))
    (hclass : con.ofClass.own.flags.isAbstract = false) (reply : Reply β) (k : Nat)
    (hbuilt : m.Answers client (.construct con) reply k) (n : Nat) (hn : k ≤ n) :
    let i : InstanceId := ⟨m.world.nextInstance⟩
    let now := m.after client n
    ∀ name value x spec behaviour, now.control = .perform (.setProperty i name value) →
      now.world.instance? i = some x →
      x.ofClass.findProperty? name = some ⟨spec, behaviour⟩ → spec.flags.constructOnly = true →
        (reply = .object i ∨ ∃ e, reply = .failed (.construct e)) ∧
          (now.Refuses client ↔ ¬ (spec.check now.world.isA value = .ok () ∧
            x.ofClass.Admits ⟨spec, behaviour⟩ (reply ≠ .object i))) := by
  intro i now name value x spec behaviour hnow hx hfind honly
  have hgate : now.world.gates i = some x.constructing := World.gates_eq hx
  have hdone := Machine.built_after hreach hm hclass hbuilt hn _ hgate
  have hopen : x.constructing = true ↔ reply ≠ .object i := by
    rcases hdone with ⟨hfalse, rfl⟩ | ⟨htrue, e, rfl⟩
    · simp [hfalse, i]
    · simp [htrue]
  refine ⟨hdone.elim (fun h => .inl h.2) (fun h => .inr h.2), ?_⟩
  rw [Machine.refuses_iff hnow hx, ← propext hopen, ← Instance.admitWrite_ok_iff hfind honly]
  cases x.admitWrite now.world.isA name value with
  | error e => simp
  | ok write => simp

/-- A class with two construct-only properties: a serial number that is computed and has a setter, and
an owner that is stored. -/
def card : Except ClassError (ClassBuilder Nat) := do
  let bare : ClassBuilder Nat := { className := "Card" }
  let numbered ← bare.computed .builtin "serial" .string { flags := .constructOnly } none 1
  (numbered.setter "serial" 2).stored .builtin "owner" .string { flags := .constructOnly }
    none none none

def cardClass : Class Nat :=
  match card.bind (·.finalize .builtin) with
  | .ok (_, c) => c
  | .error _ => .simple .empty [] none

/-- A program that makes a card and writes its properties; it fails to make another card, with a
property that there is not, and writes the owner of that one. -/
def engraver : Client Unit Nat (Routine Nat) :=
  .ofRoutines
    (fun
      | 0 => { acts := [.command (.newContext { clock := .manual }),
          .command (.construct { ofClass := cardClass, context := ⟨0⟩ }),
          .command (.setProperty ⟨1⟩ "owner" (.string "me")),
          .command (.setProperty ⟨1⟩ "serial" (.string "7")),
          .command (.construct
            { ofClass := cardClass, context := ⟨0⟩, properties := [("color", .bool true)] }),
          .command (.setProperty ⟨2⟩ "owner" (.string "me"))] }
      | _ => {})
    [.object ⟨1⟩, .object ⟨2⟩]

/-- A state of the run of `engraver`. -/
def engraverAfter (n : Nat) : Machine Unit Nat (Routine Nat) :=
  (Machine.initial () 0).after engraver n

/-- The write that is asked for. -/
def Control.write? : Control β → Option (InstanceId × String × Value)
  | .perform (.setProperty i name value) => some (i, name, value)
  | _ => none

theorem Control.eq_of_write? {c : Control β} {i : InstanceId} {name : String} {value : Value}
    (h : c.write? = some (i, name, value)) : c = .perform (.setProperty i name value) := by
  unfold write? at h
  split at h
  · cases h
    rfl
  · cases h

/-- The error that a construction ends with. -/
def Control.unmade? : Control β → Option ConstructError
  | .deliver (.failed (.construct e)) => some e
  | _ => none

theorem Control.eq_of_unmade? {c : Control β} {e : ConstructError} (h : c.unmade? = some e) :
    c = .deliver (.failed (.construct e)) := by
  unfold unmade? at h
  split at h
  · cases h
    rfl
  · cases h

set_option maxRecDepth 100000 in
theorem engraver_makes : (engraverAfter 4).Answers engraver
    (.construct { ofClass := cardClass, context := ⟨0⟩ }) (.object ⟨1⟩) 3 := by
  have hm : (engraverAfter 4).control =
      .perform (.construct { ofClass := cardClass, context := ⟨0⟩ }) := by rfl
  have hbusy : ∀ i, i < 3 → 0 < i →
      (engraverAfter 4).stack.length < ((engraverAfter 4).after engraver i).stack.length := by
    decide +kernel
  refine .of_perform hm (fun i hpos hi => hbusy i hi hpos) ?_ ?_
  · decide +kernel
  · rfl

set_option maxRecDepth 100000 in
theorem engraver_fails : (engraverAfter 17).Answers engraver
    (.construct { ofClass := cardClass, context := ⟨0⟩, properties := [("color", .bool true)] })
    (.failed (.construct (.property (.unknownProperty "Card" "color")))) 4 := by
  have hm : (engraverAfter 17).control = .perform
      (.construct { ofClass := cardClass, context := ⟨0⟩, properties := [("color", .bool true)] }) := by
    rfl
  have hbusy : ∀ i, i < 4 → 0 < i →
      (engraverAfter 17).stack.length < ((engraverAfter 17).after engraver i).stack.length := by
    decide +kernel
  refine .of_perform hm (fun i hpos hi => hbusy i hi hpos) ?_ ?_
  · decide +kernel
  · exact Control.eq_of_unmade? (by decide +kernel)

/-- Whether a name is that of a stored, writable and construct-only property that a value fits. -/
def Machine.fitsStored (m : Machine σ β κ) (i : InstanceId) (name : String) (value : Value) :
    Bool :=
  match (m.world.instance? i).bind (·.ofClass.findProperty? name) with
  | some ⟨spec, .stored _ _ _⟩ =>
    spec.flags.constructOnly && spec.flags.writable && spec.check m.world.isA value = .ok ()
  | _ => false

theorem Machine.of_fitsStored {m : Machine σ β κ} {i : InstanceId} {name : String} {value : Value}
    (h : m.fitsStored i name value = true) :
    ∃ x spec notify equality effect, m.world.instance? i = some x ∧
      x.ofClass.findProperty? name = some ⟨spec, .stored notify equality effect⟩ ∧
      spec.flags.constructOnly = true ∧ spec.flags.writable = true ∧
      spec.check m.world.isA value = .ok () := by
  unfold fitsStored at h
  split at h
  · next spec notify equality effect hentry =>
      obtain ⟨x, hx, hfind⟩ := Option.bind_eq_some_iff.mp hentry
      simp only [Bool.and_eq_true, decide_eq_true_eq] at h
      exact ⟨x, spec, notify, equality, effect, hx, hfind, h.1.1, h.1.2, h.2⟩
  · cases h

set_option maxRecDepth 100000 in
/-- The owner of a card that was made is closed; that of one that was not made is open. -/
theorem construct_only_writes_engraver :
    (engraverAfter 4).Answers engraver
        (.construct { ofClass := cardClass, context := ⟨0⟩ }) (.object ⟨1⟩) 3 ∧
      (engraverAfter 8).control = .perform (.setProperty ⟨1⟩ "owner" (.string "me")) ∧
      (engraverAfter 8).Refuses engraver ∧
      (engraverAfter 17).Answers engraver
        (.construct { ofClass := cardClass, context := ⟨0⟩, properties := [("color", .bool true)] })
        (.failed (.construct (.property (.unknownProperty "Card" "color")))) 4 ∧
      (engraverAfter 22).control = .perform (.setProperty ⟨2⟩ "owner" (.string "me")) ∧
      ¬ (engraverAfter 22).Refuses engraver := by
  have hclass : cardClass.own.flags.isAbstract = false := by decide +kernel
  have hset₁ : (engraverAfter 8).control = .perform (.setProperty ⟨1⟩ "owner" (.string "me")) :=
    Control.eq_of_write? (by decide +kernel)
  have hset₂ : (engraverAfter 22).control = .perform (.setProperty ⟨2⟩ "owner" (.string "me")) :=
    Control.eq_of_write? (by decide +kernel)
  have hfits₁ : (engraverAfter 8).fitsStored ⟨1⟩ "owner" (.string "me") = true := by
    decide +kernel
  have hfits₂ : (engraverAfter 22).fitsStored ⟨2⟩ "owner" (.string "me") = true := by
    decide +kernel
  obtain ⟨x₁, spec₁, _, _, _, hx₁, hfind₁, honly₁, -, -⟩ := Machine.of_fitsStored hfits₁
  obtain ⟨x₂, spec₂, _, _, _, hx₂, hfind₂, honly₂, hwritable₂, hcheck₂⟩ :=
    Machine.of_fitsStored hfits₂
  have hnumber₁ : (⟨(engraverAfter 4).world.nextInstance⟩ : InstanceId) = ⟨1⟩ := by decide +kernel
  have hnumber₂ : (⟨(engraverAfter 17).world.nextInstance⟩ : InstanceId) = ⟨2⟩ := by decide +kernel
  have hat₁ : (engraverAfter 4).after engraver 4 = engraverAfter 8 :=
    (Machine.after_add engraver _ 4 4).symm
  have hat₂ : (engraverAfter 17).after engraver 5 = engraverAfter 22 :=
    (Machine.after_add engraver _ 17 5).symm
  have h₁ := construct_only_writes engraver (engraverAfter 4)
    ((Machine.Reachable.initial () 0).after 4) _ (by rfl) hclass _ 3 engraver_makes 4 (by decide)
  have h₂ := construct_only_writes engraver (engraverAfter 17)
    ((Machine.Reachable.initial () 0).after 17) _ (by rfl) hclass _ 4 engraver_fails 5 (by decide)
  simp only [hnumber₁, hat₁] at h₁
  simp only [hnumber₂, hat₂] at h₂
  refine ⟨engraver_makes, hset₁, ?_, engraver_fails, hset₂, ?_⟩
  · refine (h₁ _ _ x₁ spec₁ _ hset₁ hx₁ hfind₁ honly₁).2.mpr fun h => ?_
    exact h.2.2 rfl
  · rw [(h₂ _ _ x₂ spec₂ _ hset₂ hx₂ hfind₂ honly₂).2, not_not]
    exact ⟨hcheck₂, hwritable₂, nofun⟩

set_option maxRecDepth 100000 in
/-- The serial number of a card that was made is construct-only and is written: its setter runs. -/
theorem written_after_construction :
    (engraverAfter 4).Answers engraver
        (.construct { ofClass := cardClass, context := ⟨0⟩ }) (.object ⟨1⟩) 3 ∧
      (engraverAfter 10).control = .perform (.setProperty ⟨1⟩ "serial" (.string "7")) ∧
      ((engraverAfter 10).world.instance? ⟨1⟩).bind (fun x =>
        (x.ofClass.propertySpec? "serial").map (·.flags.constructOnly)) = some true ∧
      (engraverAfter 11).control = .invoke 2
        { role := .setter "serial", self := some ⟨1⟩, args := [.string "7"] } ∧
      ¬ (engraverAfter 10).Refuses engraver := by
  have hset : (engraverAfter 11).control = .invoke 2
      { role := .setter "serial", self := some ⟨1⟩, args := [.string "7"] } := by rfl
  refine ⟨engraver_makes, Control.eq_of_write? (by decide +kernel), by decide +kernel, hset, ?_⟩
  rintro ⟨⟨e, he⟩, -, -⟩
  cases hset.symm.trans he

end ObjectSystem
