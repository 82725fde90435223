import ObjectSystem.Proofs.Handlers
import ObjectSystem.Proofs.Stored

/-!
# What was written is what is stored

`Machine.written?` reads off a state which value the next step stores under the declared name of a
property: that of a write to a stored property, if it is admitted. Nothing else stores anything
(`Machine.stems_step`). What an instance stores under a name is therefore the value that was
written to it last, by whomever and under whatever spelling (`Machine.stored_of_writes`).
-/

namespace ObjectSystem

variable {σ β κ : Type}

/-! ## Moves that store nothing -/

namespace World

variable (w : World β)

theorem values_connect (i j : InstanceId) (signal : String) (target : HandlerTarget β) :
    (w.connect i signal target).world.values? j = w.values? j := by
  unfold connect
  split
  · rfl
  · next x hx =>
      split
      · rfl
      · next y h hconnect =>
          obtain ⟨hclass, hstored⟩ := values_of_connect hconnect
          exact values?_replaceInstance hx hclass hstored j

theorem values_awaitEvent (i j : InstanceId) (resolve : String) (reject : Option String) :
    (w.awaitEvent i resolve reject).world.values? j = w.values? j := by
  unfold awaitEvent
  split
  · rfl
  · next x hx =>
      dsimp only
      split
      · rfl
      · next y ids hconnect =>
          obtain ⟨hclass, hstored⟩ := values_of_connectEvent hconnect
          exact values?_replaceInstance hx hclass hstored j

theorem values_notify (i j : InstanceId) (name : String) :
    (w.notify i name).world.values? j = w.values? j := by
  unfold notify
  split
  · rfl
  · split <;> rfl

theorem values_emit (i j : InstanceId) (detailed : String) (args : List Value) :
    (w.emit i detailed args).world.values? j = w.values? j := by
  unfold emit
  split
  · rfl
  · dsimp only
    split
    · rfl
    · split <;> rfl

theorem values_disconnect (i j : InstanceId) (h : HandlerId) :
    (w.disconnect i h).world.values? j = w.values? j := by
  unfold disconnect
  split
  · exact values?_modifyInstance w i j fun x => ⟨rfl, rfl⟩
  · rfl

/-- Of all commands, only constructions and writes have to do with stored values. -/
theorem values_perform {command : Command β} (hconstruct : ∀ con, command ≠ .construct con)
    (hset : ∀ i name value, command ≠ .setProperty i name value) (j : InstanceId) :
    (w.perform command).world.values? j = w.values? j := by
  cases hmodest : command.isModest with
  | true => exact (modest_perform w hmodest).spares.values j
  | false =>
      cases command with
      | construct con => exact absurd rfl (hconstruct con)
      | setProperty i name value => exact absurd rfl (hset i name value)
      | notify i name => exact w.values_notify i j name
      | dispose i => exact values?_dispose w i j
      | connect i signal callback => exact w.values_connect i j signal _
      | connectNotify i property callback => exact w.values_connect i j _ _
      | disconnect i h => exact w.values_disconnect i j h
      | emit i signal args => exact w.values_emit i j signal args
      | awaitEvent i resolve reject => exact w.values_awaitEvent i j resolve reject
      | _ => cases hmodest

/-- Operations in progress store nothing. -/
theorem values_resume (frame : Frame β) (reply : Reply β) (j : InstanceId) :
    (frame.resume w reply).world.values? j = w.values? j := by
  cases hmodest : frame.isModest with
  | true => exact (modest_resume w hmodest reply).spares.values j
  | false =>
      cases frame with
      | reportChange i name => rfl
      | emission e =>
          show (e.resume w reply).world.values? j = w.values? j
          rw [e.resume_eq]
          split
          · rfl
          · have hturn := Emission.turn_next w (e.hear reply).1
            generalize (e.hear reply).1.next w = p at hturn
            cases hturn with
            | settles h rest event o hcons hconnected hout => exact values?_settle w event o j
            | ends hnil => rfl
            | calls h rest callback args heeded hcons hconnected hcall => rfl
            | passes h rest hcons hgone => rfl
      | _ => cases hmodest

/-- A construction creates an instance that stores nothing, or fails. -/
theorem values_construct (con : Construction β) (j : InstanceId) :
    (w.construct con).world.values? j = w.values? j ∨
      (w.construct con).world.values? j = (w.addInstance con.ofClass con.context).1.values? j := by
  unfold construct
  split
  · exact .inl rfl
  · dsimp only
    have hchildren (v : World β) (i : InstanceId) (known : List (String × InstanceId)) :
        Spares v ((v.presetFields i con.fields).bindChildren i known) :=
      (spares_presetFields v i _).trans (spares_bindChildren _ i _)
    split
    · exact .inr (((hchildren _ _ _).trans (spares_initializeLevels _ _ _)).values j)
    · exact .inr ((hchildren _ _ _).values j)

/-- What is left after reclaiming stores what it stored. -/
theorem Sheds.values {v w : World β} {events : List EventId} (h : Sheds events w v) {i : InstanceId}
    {d : Class β × NameTable Value} (hd : v.values? i = some d) : w.values? i = some d := by
  induction h generalizing d with
  | refl => exact hd
  | abandons _ e ev he hnone hsettled ih => exact ih ((hsettled.values i).symm.trans hd)
  | drops _ _ j hj ih =>
      rw [values?_dropInstance] at hd
      split at hd
      · cases hd
      · exact ih hd

end World

namespace Machine

/-- A callback that makes its move stores nothing. -/
theorem values_move (m : Machine σ β κ) (stack : List (Layer β κ)) (inv : Invocation)
    (next : Move β κ) (j : InstanceId) :
    (m.move stack inv next).world.values? j = m.world.values? j := by
  cases next with
  | finish outcome => rfl
  | command command rest => rfl
  | pause rest => rfl
  | await event rest =>
      unfold move awaitEvent
      dsimp only
      split
      · have htake := (World.spares_takeOutcome m.world event).values j
        split
        · next w outcome hw =>
            rw [hw] at htake
            exact htake
        · next w hw =>
            rw [hw] at htake
            exact htake
      · rfl

end Machine

/-! ## Writes -/

/-- The declared name under which a write stores its value, if it is admitted to a stored
property. -/
def Instance.stores? (x : Instance β) (isA : InstanceId → TypeHandle → Bool) (name : String)
    (value : Value) : Option String :=
  match x.admitWrite isA name value with
  | .ok (.stored spec _ _ _) => some spec.name
  | _ => none

theorem Instance.stores?_eq_some {x : Instance β} {isA : InstanceId → TypeHandle → Bool}
    {name : String} {value : Value} {property : String} :
    x.stores? isA name value = some property ↔ ∃ spec notify equality effect,
      x.admitWrite isA name value = .ok (.stored spec notify equality effect) ∧
        spec.name = property := by
  unfold stores?
  constructor
  · intro h
    split at h
    · next spec notify equality effect hwrite =>
        exact ⟨spec, notify, equality, effect, hwrite, Option.some.inj h⟩
    · cases h
  · rintro ⟨spec, notify, equality, effect, hwrite, rfl⟩
    rw [hwrite]

namespace World

variable {w : World β} {i : InstanceId} {x : Instance β} {name : String} {value : Value}

/-- A write that is refused, or runs a setter, stores nothing. -/
theorem world_writeProperty_of_none
    (h : (w.instance? i).bind (·.stores? w.isA name value) = none) :
    (w.writeProperty i name value).world = w := by
  refine writeProperty_cases (P := fun p => p.world = w) w i name value ?_ ?_ ?_ ?_ ?_
  · exact fun _ => rfl
  · exact fun _ _ _ _ => rfl
  · exact fun _ _ _ _ => rfl
  · exact fun _ _ _ _ _ => rfl
  · intro x spec notify equality effect hx hwrite
    rw [hx, Option.bind_some, Instance.stores?, hwrite] at h
    cases h

/-- A write to a stored property stores the value under the declared name. -/
theorem world_writeProperty_of_some (hx : w.instance? i = some x) {property : String}
    (h : x.stores? w.isA name value = some property) :
    (w.writeProperty i name value).world = w.modifyInstance i (·.store property value) := by
  obtain ⟨spec, notify, equality, effect, hwrite, rfl⟩ := Instance.stores?_eq_some.mp h
  unfold writeProperty
  rw [hx]
  dsimp only
  rw [hwrite]
  exact storeValue_cases (P := fun p => p.world = w.modifyInstance i (·.store spec.name value))
    w i x spec notify equality effect value rfl rfl

end World

namespace Machine

/-- The value that the next step stores under a declared name of an instance, if it does. -/
def written? (m : Machine σ β κ) (i : InstanceId) (property : String) : Option Value :=
  match m.control with
  | .perform (.setProperty j name value) =>
    if j = i ∧ (m.world.instance? i).bind (·.stores? m.world.isA name value) = some property then
      some value
    else none
  | _ => none

section
variable {m : Machine σ β κ} {i : InstanceId} {property : String}

theorem written?_eq_some {value : Value} : m.written? i property = some value ↔
    ∃ name x spec notify equality effect, m.control = .perform (.setProperty i name value) ∧
      m.world.instance? i = some x ∧
      x.admitWrite m.world.isA name value = .ok (.stored spec notify equality effect) ∧
      spec.name = property := by
  unfold written?
  constructor
  · intro h
    split at h
    · next j name value' hm =>
        split at h
        · next hwrite =>
            obtain ⟨rfl, hwrite⟩ := hwrite
            cases h
            obtain ⟨x, hx, hstores⟩ := Option.bind_eq_some_iff.mp hwrite
            obtain ⟨spec, notify, equality, effect, hadmitted, hname⟩ :=
              Instance.stores?_eq_some.mp hstores
            exact ⟨name, x, spec, notify, equality, effect, hm, hx, hadmitted, hname⟩
        · cases h
    · cases h
  · rintro ⟨name, x, spec, notify, equality, effect, hm, hx, hadmitted, hname⟩
    have hstores : (m.world.instance? i).bind (·.stores? m.world.isA name value) =
        some property := by
      rw [hx]
      exact Instance.stores?_eq_some.mpr ⟨spec, notify, equality, effect, hadmitted, hname⟩
    rw [hm]
    exact if_pos ⟨rfl, hstores⟩

/-- Only a write writes. -/
theorem written?_of_ne (h : ∀ j name value, m.control ≠ .perform (.setProperty j name value)) :
    m.written? i property = none := by
  cases hwritten : m.written? i property with
  | none => rfl
  | some value =>
      obtain ⟨name, x, spec, notify, equality, effect, hm, -⟩ := written?_eq_some.mp hwritten
      exact absurd hm (h i name value)

/-- Nothing is written to an instance that is not alive. -/
theorem written?_of_none (h : m.world.instance? i = none) : m.written? i property = none := by
  cases hwritten : m.written? i property with
  | none => rfl
  | some value =>
      obtain ⟨name, x, spec, notify, equality, effect, -, hx, -⟩ := written?_eq_some.mp hwritten
      cases h.symm.trans hx

end

/-! ## What a step stores -/

/-- Where the class and the stored values of an instance come from, going back one step: the
instance stored the same before but for what the step has written, or it is new. -/
inductive Stems (m : Machine σ β κ) (i : InstanceId) (c : Class β) (stored : NameTable Value) : Prop
  | lives (before : NameTable Value) (h : m.world.values? i = some (c, before))
      (hstored : ∀ property, stored.find? property =
        (m.written? i property).or (before.find? property))
  | created (con : Construction β) (hm : m.control = .perform (.construct con))
      (hclass : con.ofClass = c) (hi : i = ⟨m.world.nextInstance⟩) (hstored : stored = .empty)

section
variable (client : Client σ β κ) {m : Machine σ β κ} {i : InstanceId} {c : Class β}
  {stored : NameTable Value}

/-- What a move that writes nothing leaves as it was. -/
theorem Stems.of_same (hm : ∀ j name value, m.control ≠ .perform (.setProperty j name value))
    (h : m.world.values? i = some (c, stored)) : m.Stems i c stored :=
  .lives stored h fun property => by rw [written?_of_ne hm, Option.none_or]

/-- What a write leaves behind. -/
theorem stems_of_write {j : InstanceId} {name : String} {value : Value}
    (hm : m.control = .perform (.setProperty j name value))
    (h : (m.world.writeProperty j name value).world.values? i = some (c, stored)) :
    m.Stems i c stored := by
  have hwritten (property : String) : m.written? i property =
      if j = i ∧ (m.world.instance? i).bind (·.stores? m.world.isA name value) = some property then
        some value
      else none := by
    unfold written?
    rw [hm]
  cases hstores : (m.world.instance? j).bind (·.stores? m.world.isA name value) with
  | none =>
      rw [World.world_writeProperty_of_none hstores] at h
      refine .lives stored h fun property => ?_
      rw [hwritten, if_neg, Option.none_or]
      rintro ⟨rfl, hsome⟩
      cases hstores.symm.trans hsome
  | some written =>
      obtain ⟨x, hx, hstores'⟩ := Option.bind_eq_some_iff.mp hstores
      rw [World.world_writeProperty_of_some hx hstores', World.values?_store hx] at h
      split at h
      · next hij =>
          cases h
          refine .lives x.stored (hij ▸ World.values?_eq hx) fun property => ?_
          rw [hwritten, NameTable.find?_insert, hij, hstores]
          by_cases hname : property = written
          · rw [if_pos hname, if_pos ⟨rfl, congrArg some hname.symm⟩]
            rfl
          · rw [if_neg hname, if_neg fun h => hname (Option.some.inj h.2).symm, Option.none_or]
      · next hij =>
          refine .lives stored h fun property => ?_
          rw [hwritten, if_neg fun h => hij h.1.symm, Option.none_or]

/-- What a construction that begins leaves behind. -/
theorem stems_of_construct {con : Construction β} (hm : m.control = .perform (.construct con))
    (h : (m.world.construct con).world.values? i = some (c, stored)) : m.Stems i c stored := by
  have hne : ∀ j name value, m.control ≠ .perform (.setProperty j name value) := by
    intro j name value heq
    cases hm.symm.trans heq
  rcases m.world.values_construct con i with hold | hnew
  · exact .of_same hne (hold.symm.trans h)
  · rw [hnew, World.values?_addInstance] at h
    cases hlives : m.world.values? i with
    | some d =>
        rw [hlives] at h
        cases h
        exact .of_same hne hlives
    | none =>
        rw [hlives, Option.none_or] at h
        split at h
        · next hi =>
            cases h
            exact .created con hm rfl hi rfl
        · cases h

/-- Moves store what they write and nothing else. -/
theorem stems_advance (h : (m.advance client).world.values? i = some (c, stored)) :
    m.Stems i c stored := by
  have hsame (hm : ∀ j name value, m.control ≠ .perform (.setProperty j name value))
      (hworld : (m.advance client).world.values? i = m.world.values? i) : m.Stems i c stored :=
    .of_same hm (hworld.symm.trans h)
  cases hm : m.control with
  | perform command =>
      rw [advance_perform client hm] at h hsame
      by_cases hset : ∃ j name value, command = .setProperty j name value
      · obtain ⟨j, name, value, rfl⟩ := hset
        exact stems_of_write hm h
      by_cases hconstruct : ∃ con, command = .construct con
      · obtain ⟨con, rfl⟩ := hconstruct
        exact stems_of_construct hm h
      have hset : ∀ j name value, command ≠ .setProperty j name value :=
        fun j name value heq => hset ⟨j, name, value, heq⟩
      refine hsame (fun j name value heq => ?_)
        (m.world.values_perform (fun con heq => hconstruct ⟨con, heq⟩) hset i)
      exact hset j name value (Control.perform.inj (hm.symm.trans heq))
  | invoke callback inv =>
      refine hsame (by rw [hm]; nofun) ?_
      rw [advance_invoke client hm]
  | continueTask c' task outcome =>
      refine hsame (by rw [hm]; nofun) ?_
      unfold advance
      rw [hm]
      dsimp only
      unfold continueTask
      dsimp only
      split <;> rfl
  | deliver reply =>
      refine hsame (by rw [hm]; nofun) ?_
      unfold advance
      rw [hm]
      dsimp only
      split
      · rfl
      · exact values_move _ _ _ _ i
      · exact m.world.values_resume _ reply i

/-- **Steps store what they write and nothing else.** -/
theorem stems_step (h : (m.step client).world.values? i = some (c, stored)) :
    m.Stems i c stored :=
  stems_advance client ((sheds_step client m).values h)

/-! ## What a run stores -/

/-- The values that so many steps have stored under a declared name of an instance, in order. -/
def writes (client : Client σ β κ) (m : Machine σ β κ) (i : InstanceId) (property : String)
    (n : Nat) : List Value :=
  log client (·.written? i property) m n

theorem writes_succ (m : Machine σ β κ) (i : InstanceId) (property : String) (n : Nat) :
    writes client m i property (n + 1) =
      writes client m i property n ++ ((m.after client n).written? i property).toList := by
  unfold writes
  rw [log_add, log_one]

theorem getLast?_writes_succ (m : Machine σ β κ) (i : InstanceId) (property : String) (n : Nat) :
    (writes client m i property (n + 1)).getLast? =
      ((m.after client n).written? i property).or (writes client m i property n).getLast? := by
  rw [writes_succ, List.getLast?_append]
  cases (m.after client n).written? i property <;> rfl

variable {client}

theorem Reachable.alive_lt (hreach : m.Reachable client)
    (h : m.world.values? i = some (c, stored)) : i.number < m.world.nextInstance := by
  rw [World.values?_eq_estate] at h
  obtain ⟨d, hd, -⟩ := Option.map_eq_some_iff.mp h
  exact (hreach.ordered i d hd).1

theorem nextInstance_le (client : Client σ β κ) (m : Machine σ β κ) (n : Nat) :
    m.world.nextInstance ≤ (m.after client n).world.nextInstance := by
  induction n with
  | zero => exact Nat.le_refl _
  | succ n ih => exact Nat.le_trans ih (evolves_step client _).nextInstance

/-- **An instance stores what was written to it last**, and what it stored before as long as nothing
was. -/
theorem stored_of_writes (hreach : m.Reachable client) {c₀ : Class β} {before : NameTable Value}
    (hlive : m.world.values? i = some (c₀, before)) {n : Nat}
    (h : (m.after client n).world.values? i = some (c, stored)) :
    c = c₀ ∧ ∀ property, stored.find? property =
      (writes client m i property n).getLast?.or (before.find? property) := by
  induction n generalizing c stored with
  | zero =>
      cases hlive.symm.trans h
      exact ⟨rfl, fun property => rfl⟩
  | succ n ih =>
      cases stems_step client h with
      | lives earlier hearlier hstored =>
          obtain ⟨hclass, hbefore⟩ := ih hearlier
          refine ⟨hclass, fun property => ?_⟩
          rw [hstored, hbefore, getLast?_writes_succ, Option.or_assoc]
      | created con hm hclass hi hempty =>
          -- the number of the instance was given out before
          have hlt := hreach.alive_lt hlive
          have hle := nextInstance_le client m n
          rw [hi] at hlt
          exact absurd hlt (Nat.not_lt.mpr hle)

/-- The same from the beginning of a program on: every instance was constructed, and stores what was
written to it last. -/
theorem stored_of_initial (client : Client σ β κ) (state : σ) (program : β) {n : Nat}
    (h : ((initial state program).after client n).world.values? i = some (c, stored)) :
    (∃ k con, k < n ∧ ((initial state program).after client k).control = .perform (.construct con) ∧
        con.ofClass = c) ∧
      ∀ property, stored.find? property =
        (writes client (initial state program) i property n).getLast? := by
  induction n generalizing c stored with
  | zero => cases h
  | succ n ih =>
      cases stems_step client h with
      | lives earlier hearlier hstored =>
          obtain ⟨⟨k, con, hk, hconstruct⟩, hbefore⟩ := ih hearlier
          refine ⟨⟨k, con, Nat.lt_succ_of_lt hk, hconstruct⟩, fun property => ?_⟩
          rw [hstored, hbefore, getLast?_writes_succ]
      | created con hm hclass hi hempty =>
          refine ⟨⟨n, con, Nat.lt_succ_self n, hm, hclass⟩, fun property => ?_⟩
          -- nothing was written to it before, for there was no such instance
          have hnone : writes client (initial state program) i property (n + 1) = [] := by
            refine log_eq_nil fun k hk =>
              written?_of_none (Option.eq_none_iff_forall_ne_some.mpr ?_)
            intro x hx
            have hlt := ((Reachable.initial state program).after k).alive_lt (World.values?_eq hx)
            have hle := nextInstance_le client ((initial state program).after client k) (n - k)
            rw [← after_add, Nat.add_sub_cancel' (Nat.le_of_lt_succ hk)] at hle
            rw [hi] at hlt
            exact absurd hlt (Nat.not_lt.mpr hle)
          rw [hnone, hempty]
          rfl

/-! ## What writes tell of values -/

/-- What is written under the declared name of a property is written to that property, and passes
its check. -/
theorem written_to {x : Instance β} (hx : m.world.instance? i = some x) (hfiled : x.ofClass.Filed)
    (entry : PropertyEntry β) (hentry : x.ofClass.findProperty? entry.spec.name = some entry)
    {value : Value} (h : m.written? i entry.spec.name = some value) :
    ∃ name notify equality effect, m.control = .perform (.setProperty i name value) ∧
      entry.behaviour = .stored notify equality effect ∧
      x.admitWrite m.world.isA name value = .ok (.stored entry.spec notify equality effect) ∧
      entry.spec.check m.world.isA value = .ok () := by
  obtain ⟨name, x', spec, notify, equality, effect, hm, hx', hadmitted, hname⟩ :=
    written?_eq_some.mp h
  cases hx.symm.trans hx'
  obtain ⟨hfind, hcheck⟩ := Instance.property_of_admitWrite hadmitted
  have hdeclared := (hfiled.findProperty?_name hfind).1
  dsimp only at hdeclared
  rw [hname] at hdeclared
  cases hentry.symm.trans hdeclared
  exact ⟨name, notify, equality, effect, hm, rfl, hadmitted, hcheck⟩

/-- Every value that was written to a property has passed its check. -/
theorem checked_of_mem_writes (hreach : m.Reachable client) {n : Nat} {x : Instance β}
    (hx : (m.after client n).world.instance? i = some x) (hfiled : x.ofClass.Filed)
    {entry : PropertyEntry β} (hentry : x.ofClass.findProperty? entry.spec.name = some entry)
    {value : Value} (h : value ∈ writes client m i entry.spec.name n) :
    ∃ k, k < n ∧ entry.spec.check (m.after client k).world.isA value = .ok () := by
  obtain ⟨k, hk, hwritten⟩ := List.mem_filterMap.mp h
  have hkn := List.mem_range.mp hk
  obtain ⟨_, y, _, _, _, _, _, hy, -⟩ := written?_eq_some.mp hwritten
  -- the class of the instance is the same all the time
  have hlast : ((m.after client k).after client (n - k)).world.values? i =
      some (x.ofClass, x.stored) := by
    rw [← after_add, Nat.add_sub_cancel' (Nat.le_of_lt hkn)]
    exact World.values?_eq hx
  obtain ⟨hclass, -⟩ := stored_of_writes (hreach.after k) (World.values?_eq hy) hlast
  rw [hclass] at hfiled hentry
  obtain ⟨-, -, -, -, -, -, -, hcheck⟩ := written_to hy hfiled _ hentry hwritten
  exact ⟨k, hkn, hcheck⟩

end

end Machine

end ObjectSystem
