import ObjectSystem.Proofs.Holding
import ObjectSystem.Proofs.Reports

/-!
# Effects that lag behind

The effect of a property runs after the change was reported, with the value that its write has
stored. A handler of the report may have written the property again by then. So the law of effects
is told by histories:

* an effect that waits on the stack was put there by a write, and has waited there since
  (`Machine.exists_write_of_due`);
* when an effect starts, the value that it is given was stored by that write, and the property reads
  as the last value that was stored since (`Machine.EffectOf`, `Machine.exists_effectOf`);
* when a write is answered, no later write than the one before the last effect was made
  (`Machine.exists_last_effect`), so what the property reads then is what it read when the last
  effect started (`effects_lag_behind`).
-/

namespace ObjectSystem

variable {σ β κ : Type}

/-- A place in a list that is put on top of another one is in one of the two. -/
theorem List.place_of_append {α : Type} {front back above base : List α} {a : α}
    (h : front ++ back = above ++ a :: base) :
    (∃ above', back = above' ++ a :: base) ∨
      ∃ rest, front = above ++ a :: rest ∧ base = rest ++ back := by
  rcases List.append_eq_append_iff.mp h with ⟨rest, -, hback⟩ | ⟨rest, hfront, hbase⟩
  · exact .inl ⟨rest, hback⟩
  · cases rest with
    | nil => exact .inl ⟨[], hbase.symm⟩
    | cons b rest =>
      obtain ⟨rfl, htail⟩ := List.cons.inj hbase
      exact .inr ⟨rest, hfront, htail⟩

/-- Below a callback on top, everything stays in its place. -/
theorem List.place_below_callback {below above base : List (Layer β κ)} {k : κ} {inv : Invocation}
    {f : Frame β} (h : .callback k inv :: below = above ++ .operation f :: base) :
    ∃ above', below = above' ++ .operation f :: base := by
  cases above with
  | nil => cases h
  | cons layer above => exact ⟨above, (List.cons.inj h).2⟩

/-! ## Where waiting effects come from -/

section
variable {w : World β} {i j : InstanceId} {name property : String} {effect : Option β}
  {value v : Value} {above rest : List (Layer β κ)}

/-- Frames that run no effect put none on the stack. -/
theorem Frame.map_operation_ne {frames : List (Frame β)}
    (hframes : frames.all (!·.isEffect) = true) :
    frames.map .operation ≠ above ++ .operation (.runEffect i property effect value) :: rest := by
  intro h
  have hmem : Layer.operation (.runEffect i property effect value) ∈
      frames.map (Layer.operation (κ := κ)) :=
    h ▸ List.mem_append_right _ List.mem_cons_self
  obtain ⟨f, hf, heq⟩ := List.mem_map.mp hmem
  cases heq
  cases List.all_eq_true.mp hframes _ hf

/-- A write that stores leaves its effect below everything else. -/
theorem World.exists_frames_storeValue (w : World β) (i : InstanceId) (x : Instance β)
    (spec : PropertySpec) (notify : Option NotifyPolicy) (equality : Option ObjectEquality)
    (effect : Option β) (value : Value) :
    ∃ front, (w.storeValue i x spec notify equality effect value).frames =
      front ++ [.runEffect i spec.name effect value] ∧ front.all (!·.isEffect) = true :=
  storeValue_cases (P := fun p => ∃ front, p.frames = front ++ [.runEffect i spec.name effect value] ∧
    front.all (!·.isEffect) = true) w i x spec notify equality effect value
    ⟨[_], rfl, rfl⟩ ⟨[], rfl, rfl⟩

/-- A write puts no effect on the stack but that of the property that it stores. -/
theorem World.runEffect_of_writeProperty
    (h : (w.writeProperty j name v).frames.map .operation =
      above ++ .operation (.runEffect i property effect value) :: rest) :
    rest = [] ∧ j = i ∧ v = value ∧ ∃ x spec notify equality, w.instance? i = some x ∧
      x.admitWrite w.isA name value = .ok (.stored spec notify equality effect) ∧
      spec.name = property := by
  revert h
  refine writeProperty_cases (P := fun p => p.frames.map .operation =
      above ++ .operation (.runEffect i property effect value) :: rest →
    rest = [] ∧ j = i ∧ v = value ∧ ∃ x spec notify equality, w.instance? i = some x ∧
      x.admitWrite w.isA name value = .ok (.stored spec notify equality effect) ∧
      spec.name = property) w j name v ?_ ?_ ?_ ?_ ?_
  · exact fun _ h => absurd h (Frame.map_operation_ne rfl)
  · exact fun _ _ _ _ h => absurd h (Frame.map_operation_ne rfl)
  · exact fun _ _ _ _ h => absurd h (Frame.map_operation_ne rfl)
  · exact fun _ _ _ _ _ h => absurd h (Frame.map_operation_ne rfl)
  · intro x spec notify equality effect' hx hadmitted h
    obtain ⟨front, hframes, hfront⟩ :=
      w.exists_frames_storeValue j x spec notify equality effect' v
    rw [hframes, List.map_append] at h
    rcases List.place_of_append h with ⟨above', hlast⟩ | ⟨rest', hplace, -⟩
    · cases above' with
      | nil =>
        cases hlast
        exact ⟨rfl, rfl, rfl, x, spec, notify, equality, hx, hadmitted, rfl⟩
      | cons layer above' => simp at hlast
    · exact absurd hplace (Frame.map_operation_ne hfront)

end

namespace Machine

variable {client : Client σ β κ} {m : Machine σ β κ} {i : InstanceId} {property : String}
  {effect : Option β} {value : Value} {above base : List (Layer β κ)}

/-- **An effect that waits on the stack has waited there before, or it was put there by a write**,
directly on top of what there was. -/
theorem due_of_step (h : (m.step client).stack =
    above ++ .operation (.runEffect i property effect value) :: base) :
    (∃ above', m.stack = above' ++ .operation (.runEffect i property effect value) :: base) ∨
      base = m.stack ∧ ∃ name x spec notify equality,
        m.control = .perform (.setProperty i name value) ∧ m.world.instance? i = some x ∧
        x.admitWrite m.world.isA name value = .ok (.stored spec notify equality effect) ∧
        spec.name = property := by
  -- what is put on the stack by anything but a write is no effect
  have hbelow {p : Progress β} {stack : List (Layer β κ)} (hf : (m.step client).Follows p stack)
      (hp : p.frames.all (!·.isEffect) = true) :
      ∃ above', stack = above' ++ .operation (.runEffect i property effect value) :: base := by
    rcases List.place_of_append (hf.stack.symm.trans h) with hplace | ⟨rest, hplace, -⟩
    · exact hplace
    · exact absurd hplace (Frame.map_operation_ne hp)
  cases moved_step client m with
  | performs command hm hf =>
    cases hcommand : command.isInert with
    | true =>
      obtain ⟨hframes, -⟩ := Bool.and_eq_true_iff.mp (World.inert_perform m.world hcommand)
      exact .inl (hbelow hf hframes)
    | false =>
      cases command with
      | setProperty j name v =>
        rcases List.place_of_append (hf.stack.symm.trans h) with hplace | ⟨rest, hplace, hbase⟩
        · exact .inl hplace
        · obtain ⟨rfl, rfl, rfl, x, spec, notify, equality, hx, hadmitted, hname⟩ :=
            World.runEffect_of_writeProperty hplace
          exact .inr ⟨hbase, name, x, spec, notify, equality, hm, hx, hadmitted, hname⟩
      | _ => cases hcommand
  | resumes frame reply below hm hs hf =>
    obtain ⟨above', hplace⟩ := hbelow hf (m.world.effectless_resume frame reply)
    exact .inl ⟨.operation frame :: above', hs.trans (congrArg _ hplace)⟩
  | enters rest inv reply hm hw hs hc => exact .inl (List.place_below_callback (hs.symm.trans h))
  | asks command k k' inv below hw hs hs' hc =>
    obtain ⟨above', hplace⟩ := List.place_below_callback (hs'.symm.trans h)
    exact .inl ⟨.callback k inv :: above', hs.trans (congrArg _ hplace)⟩
  | goesOn reply k k' inv below hw hs hs' hc =>
    obtain ⟨above', hplace⟩ := List.place_below_callback (hs'.symm.trans h)
    exact .inl ⟨.callback k inv :: above', hs.trans (congrArg _ hplace)⟩
  | leaves reply k inv below hw hs hs' hc hr =>
    exact .inl ⟨.callback k inv :: above, hs.trans (congrArg _ (hs'.symm.trans h))⟩
  | rests reply hw hs hm hc => exact .inl ⟨above, hs.symm.trans h⟩

/-- **An effect that waits in a run was put on the stack by a write**, and has waited there since. -/
theorem exists_write_of_due (state : σ) (program : β) {n : Nat}
    (h : ((initial state program).after client n).stack =
      above ++ .operation (.runEffect i property effect value) :: base) :
    ∃ s, s < n ∧ base = ((initial state program).after client s).stack ∧
      ((initial state program).after client s).written? i property = some value ∧
      ∀ k, s < k → k ≤ n → ∃ above, ((initial state program).after client k).stack =
        above ++ .operation (.runEffect i property effect value) :: base := by
  induction n generalizing above with
  | zero =>
    have hnil : above ++ .operation (.runEffect i property effect value) :: base = [] := h.symm
    simp at hnil
  | succ n ih =>
    rcases due_of_step h with ⟨above', hbefore⟩ |
      ⟨hbase, name, x, spec, notify, equality, hm, hx, hadmitted, hname⟩
    · obtain ⟨s, hs, hbase, hwritten, hwaits⟩ := ih hbefore
      refine ⟨s, Nat.lt_succ_of_lt hs, hbase, hwritten, fun k hsk hkn => ?_⟩
      rcases Nat.lt_or_eq_of_le hkn with hlt | rfl
      · exact hwaits k hsk (Nat.le_of_lt_succ hlt)
      · exact ⟨above, h⟩
    · refine ⟨n, Nat.lt_succ_self n, hbase, written?_eq_some.mpr
        ⟨name, x, spec, notify, equality, effect, hm, hx, hadmitted, hname⟩, fun k hnk hkn => ?_⟩
      obtain rfl : k = n + 1 := Nat.le_antisymm hkn hnk
      exact ⟨above, h⟩

/-! ## Effects that start -/

/-- What a property holds after `n` steps if step `s` has stored a value: that value, or what was
stored last since. -/
def held (client : Client σ β κ) (m : Machine σ β κ) (i : InstanceId) (property : String)
    (value : Value) (s n : Nat) : Value :=
  (writes client (m.after client (s + 1)) i property (n - (s + 1))).getLast?.getD value

/-- The effect that starts after `n` steps is that of the write that step `s` makes. -/
structure EffectOf (client : Client σ β κ) (m : Machine σ β κ) (i : InstanceId) (property : String)
    (value : Value) (s n : Nat) : Prop where
  before : s < n
  written : (m.after client s).written? i property = some value
  /-- The effect has waited on the stack all the time. -/
  waits : ∀ k, s < k → k < n → ∃ above effect, (m.after client k).stack =
    above ++ .operation (.runEffect i property effect value) :: (m.after client s).stack
  /-- It is given the value that was written then. -/
  starts : ∃ callback, (m.after client n).control =
    .invoke callback { role := .effect property, self := some i, args := [value] }
  /-- What is left of the write is to end. -/
  stack : (m.after client n).stack = .operation (.finishWrite i) :: (m.after client s).stack
  /-- The property holds what was written last. -/
  holds : ∃ x, (m.after client n).world.instance? i = some x ∧
    x.stored.find? property = some (m.held client i property value s n)

/-- What a stored property of a live instance reads. -/
theorem reads_of_holds {x : Instance β} (hx : m.world.instance? i = some x) {name : String}
    {spec : PropertySpec} {notify : Option NotifyPolicy} {equality : Option ObjectEquality}
    (hfind : x.ofClass.findProperty? name = some ⟨spec, .stored notify equality effect⟩)
    (hstored : x.stored.find? spec.name = some value) :
    m.world.perform (.property i name) = .reply m.world (.value (some value)) := by
  simp only [World.perform, World.readProperty, hx, hfind, hstored, Option.getD_some]

/-- What is stored after a write is what was written last. -/
theorem Reachable.holds_since {m : Machine σ β κ} (hreach : m.Reachable client) {s n : Nat}
    (hsn : s < n) (hwritten : (m.after client s).written? i property = some value) {c : Class β}
    {stored : NameTable Value}
    (hnow : (m.after client n).world.values? i = some (c, stored)) :
    stored.find? property = some (m.held client i property value s n) := by
  obtain ⟨_, x, _, _, _, _, _, hx, -⟩ := written?_eq_some.mp hwritten
  have hlater : (m.after client s).after client (1 + (n - (s + 1))) = m.after client n := by
    rw [← after_add, ← Nat.add_assoc, Nat.add_sub_cancel' hsn]
  rw [← hlater] at hnow
  have hlast := (stored_of_writes (hreach.after s) (World.values?_eq hx) hnow).2 property
  unfold writes at hlast
  rw [log_add, log_one, hwritten, Option.toList_some, List.getLast?_append, ← after_add] at hlast
  rw [hlast]
  unfold held writes
  cases (log client (·.written? i property) (m.after client (s + 1)) (n - (s + 1))).getLast? <;> rfl

/-- **Whenever an effect starts, it is that of a write**: it is given the value of that write, and
the property holds what was written last since. -/
theorem exists_effectOf (state : σ) (program : β) {n : Nat} {callback : β} {inv : Invocation}
    (h : ((initial state program).after client n).control = .invoke callback inv)
    (hrole : inv.role = .effect property) (hself : inv.self = some i) :
    ∃ s value, EffectOf client (initial state program) i property value s n ∧
      inv.args = [value] := by
  cases n with
  | zero =>
    cases h
    cases hrole
  | succ n =>
    obtain ⟨j, value, reply, below, hm, hs, rfl⟩ := of_starts_effect h hrole
    cases hself
    obtain ⟨s, hsn, rfl, hwritten, hwaits⟩ :=
      exists_write_of_due state program (hs.trans (List.nil_append _).symm)
    have hreach : Reachable client (initial state program) := .initial state program
    -- from the write on, the instance is held
    have halive : ((initial state program).after client (n + 1)).world.values? i ≠ none := by
      obtain ⟨_, x, _, _, _, _, _, hx, -⟩ := written?_eq_some.mp hwritten
      obtain ⟨d, rfl⟩ := Nat.exists_eq_add_of_lt hsn
      rw [Nat.add_assoc s d 1, Nat.add_assoc, after_add]
      refine alive_after (by rw [World.values?_eq hx]; exact Option.some_ne_none _)
        fun k hpos hk => ?_
      rw [← after_add]
      rcases Nat.lt_or_eq_of_le hk with hlt | rfl
      · obtain ⟨above, habove⟩ := hwaits (s + k) (by omega) (by omega)
        refine held_of_mem_stack (habove ▸ List.mem_append_right _ List.mem_cons_self) ?_
        simp [layerHandles, Frame.handles]
      · refine held_of_control ?_
        rw [← Nat.add_assoc, ← Nat.add_assoc, h]
        simp [Control.handles, Invocation.handles]
    obtain ⟨x, hx⟩ := World.exists_instance halive
    have hbefore : s < n + 1 := Nat.lt_succ_of_lt hsn
    have hholds := hreach.holds_since hbefore hwritten (World.values?_eq hx)
    refine ⟨s, value, ⟨hbefore, hwritten, fun k hsk hkn => ?_, ⟨callback, h⟩,
      (follows_resume client hm hs).stack, x, hx, hholds⟩, rfl⟩
    obtain ⟨above, habove⟩ := hwaits k hsk (Nat.le_of_lt_succ hkn)
    exact ⟨above, _, habove⟩

/-! ## The last effect of a write -/

/-- Of the numbers below a bound that have a property, one is the last. -/
theorem exists_last {P : Nat → Prop} {a b : Nat} (hab : a < b) (ha : P a) :
    ∃ s, a ≤ s ∧ s < b ∧ P s ∧ ∀ k, s < k → k < b → ¬P k := by
  classical
  have hle : Nat.findGreatest P (b - 1) ≤ b - 1 := Nat.findGreatest_le _
  refine ⟨Nat.findGreatest P (b - 1), Nat.le_findGreatest (by omega) ha, by omega,
    Nat.findGreatest_spec (by omega) ha, fun k hk hkb => ?_⟩
  exact Nat.findGreatest_is_greatest hk (by omega)

/-- An operation goes on before what was below it is all that is left. -/
theorem exists_resume {f : Frame β} (hs : m.stack = above ++ .operation f :: base) {n : Nat}
    (hn : (m.after client n).stack.length ≤ base.length) :
    ∃ t reply, t < n ∧ (m.after client t).stack = .operation f :: base ∧
      (m.after client t).control = .deliver reply := by
  induction n generalizing m above with
  | zero =>
    change m.stack.length ≤ base.length at hn
    rw [hs, List.length_append, List.length_cons] at hn
    omega
  | succ n ih =>
    rcases stays_or_resumes client hs with ⟨above', hstays⟩ | ⟨reply, rfl, hm, -⟩
    · obtain ⟨t, reply, ht, hstack, hcontrol⟩ := ih hstays (after_succ client m n ▸ hn)
      rw [after_succ] at hstack hcontrol
      exact ⟨t + 1, reply, Nat.succ_lt_succ ht, hstack, hcontrol⟩
    · exact ⟨0, reply, Nat.succ_pos n, hs, hm⟩

/-- The effect of a property starts. -/
def Affects (m : Machine σ β κ) (i : InstanceId) (property : String) : Prop :=
  ∃ callback inv, m.control = .invoke callback inv ∧ inv.role = .effect property ∧
    inv.self = some i

/-- A write of a property with an effect runs it before it is answered. -/
theorem affects_of_write {x : Instance β}
    (hx : m.world.instance? i = some x) (hfiled : x.ofClass.Filed) {spec : PropertySpec}
    {notify : Option NotifyPolicy} {equality : Option ObjectEquality} {callback : β}
    (hdeclared : x.ofClass.findProperty? spec.name =
      some ⟨spec, .stored notify equality (some callback)⟩)
    (hwritten : m.written? i spec.name = some value) {n : Nat}
    (hn : (m.after client n).stack.length ≤ m.stack.length) (hpos : 0 < n) :
    ∃ t, 0 < t ∧ t ≤ n ∧ (m.after client t).Affects i spec.name := by
  obtain ⟨name, _, _, _, hm, hbehaviour, hadmitted, -⟩ :=
    written_to hx hfiled ⟨spec, .stored notify equality (some callback)⟩ hdeclared hwritten
  cases hbehaviour
  have hf := follows_store client hm hx hadmitted
  obtain ⟨front, hframes, -⟩ :=
    m.world.exists_frames_storeValue i x spec notify equality (some callback) value
  have hs : (m.step client).stack = front.map .operation ++
      .operation (.runEffect i spec.name (some callback) value) :: m.stack := by
    rw [hf.stack, hframes, List.map_append, List.append_assoc]
    rfl
  obtain ⟨n, rfl⟩ := Nat.exists_eq_succ_of_ne_zero (Nat.ne_of_gt hpos)
  obtain ⟨t, reply, ht, hstack, hcontrol⟩ := exists_resume hs (after_succ client m n ▸ hn)
  have hstarts := follows_resume client hcontrol hstack
  rw [after_succ] at hstarts
  exact ⟨t + 2, Nat.succ_pos _, by omega, callback, _, hstarts.control, rfl, rfl⟩

/-- The same of a write that is made later on. -/
theorem Reachable.affects_after {m : Machine σ β κ} (hreach : Reachable client m) {n w e : Nat}
    {x : Instance β} (hx : (m.after client n).world.instance? i = some x)
    (hfiled : x.ofClass.Filed) {spec : PropertySpec} {notify : Option NotifyPolicy}
    {equality : Option ObjectEquality} {callback : β}
    (hdeclared : x.ofClass.findProperty? spec.name =
      some ⟨spec, .stored notify equality (some callback)⟩)
    (hnw : n ≤ w) (hwe : w < e) (hwritten : (m.after client w).written? i spec.name = some value)
    (hheight : (m.after client e).stack.length ≤ (m.after client w).stack.length) :
    ∃ t, w < t ∧ t ≤ e ∧ (m.after client t).Affects i spec.name := by
  obtain ⟨_, y, _, _, _, _, _, hy, -⟩ := written?_eq_some.mp hwritten
  obtain ⟨d, rfl⟩ := Nat.exists_eq_add_of_le hnw
  have hclass : y.ofClass = x.ofClass := by
    rw [after_add] at hy
    exact (stored_of_writes (hreach.after n) (World.values?_eq hx) (World.values?_eq hy)).1
  have hlater : (m.after client (n + d)).after client (e - (n + d)) = m.after client e := by
    rw [← after_add, Nat.add_sub_cancel' (Nat.le_of_lt hwe)]
  obtain ⟨t, hpos, ht, haffects⟩ := affects_of_write hy (hclass ▸ hfiled) (hclass ▸ hdeclared)
    hwritten (hlater ▸ hheight) (by omega)
  rw [← after_add] at haffects
  exact ⟨n + d + t, by omega, by omega, haffects⟩

/-- **The last effect before a write is answered** starts after everything that is written in
between. -/
theorem exists_last_effect (state : σ) (program : β) {n : Nat} {x : Instance β}
    (hx : ((initial state program).after client n).world.instance? i = some x)
    (hfiled : x.ofClass.Filed) {spec : PropertySpec} {notify : Option NotifyPolicy}
    {equality : Option ObjectEquality} {callback : β}
    (hdeclared : x.ofClass.findProperty? spec.name =
      some ⟨spec, .stored notify equality (some callback)⟩)
    (hwritten : ((initial state program).after client n).written? i spec.name = some value)
    {e : Nat} (hne : n < e) {reply : Reply β}
    (hbusy : ∀ j, n < j → j < e → ((initial state program).after client n).stack.length <
      ((initial state program).after client j).stack.length)
    (hstack : ((initial state program).after client e).stack =
      ((initial state program).after client n).stack)
    (hcontrol : ((initial state program).after client e).control = .deliver reply) :
    ∃ s t v, n ≤ s ∧ t < e ∧ EffectOf client (initial state program) i spec.name v s t ∧
      (∀ j, t ≤ j → j < e →
        ((initial state program).after client j).written? i spec.name = none) ∧
      ∀ j, t < j → j ≤ e → ¬((initial state program).after client j).Affects i spec.name := by
  have hreach : Reachable client (initial state program) := .initial state program
  obtain ⟨w, hnw, hwe, hw, hlast⟩ := exists_last
    (P := fun j => ((initial state program).after client j).written? i spec.name ≠ none) hne
    (by rw [hwritten]; exact Option.some_ne_none _)
  obtain ⟨v, hv⟩ := Option.ne_none_iff_exists'.mp hw
  -- the last write runs its effect
  have hheight : ((initial state program).after client e).stack.length ≤
      ((initial state program).after client w).stack.length := by
    rw [hstack]
    rcases Nat.lt_or_eq_of_le hnw with hlt | rfl
    · exact Nat.le_of_lt (hbusy w hlt hwe)
    · exact Nat.le_refl _
  obtain ⟨t₀, ht₀, ht₀e, haffects⟩ := hreach.affects_after hx hfiled hdeclared hnw hwe hv hheight
  obtain ⟨t, ht₀t, hte, ⟨f, inv, hinvoke, hrole, hself⟩, hlater⟩ := exists_last
    (P := fun j => ((initial state program).after client j).Affects i spec.name)
    (Nat.lt_succ_of_le ht₀e) haffects
  obtain ⟨s, u, heffect, -⟩ := exists_effectOf state program hinvoke hrole hself
  -- what is answered is no callback that starts
  have hlt : t < e := by
    rcases Nat.lt_or_eq_of_le (Nat.le_of_lt_succ hte) with hlt | rfl
    · exact hlt
    · cases hcontrol.symm.trans hinvoke
  refine ⟨s, t, u, ?_, hlt, heffect, fun j htj hje => ?_, fun j htj hje => hlater j htj (by omega)⟩
  · -- the write of that effect stands on top of what there was
    by_contra hsn
    obtain ⟨above, effect, habove⟩ := heffect.waits n (by omega) (by omega)
    have hheight := hbusy t (by omega) hlt
    rw [heffect.stack, habove, List.length_append, List.length_cons, List.length_cons] at hheight
    omega
  · by_contra hne
    exact hlast j (by omega) hje hne

/-- If nothing is written any more, a property goes on holding what it held. -/
theorem held_of_silent (m : Machine σ β κ) (value : Value) {s t e : Nat} (hst : s < t)
    (hte : t ≤ e) (hsilent : ∀ j, t ≤ j → j < e → (m.after client j).written? i property = none) :
    m.held client i property value s e = m.held client i property value s t := by
  have hafter : writes client ((m.after client (s + 1)).after client (t - (s + 1))) i property
      (e - t) = [] := by
    refine log_eq_nil fun j hj => ?_
    rw [← after_add, ← after_add]
    exact hsilent _ (by omega) (by omega)
  have hsplit : e - (s + 1) = (t - (s + 1)) + (e - t) := by omega
  unfold held
  rw [hsplit, show writes client (m.after client (s + 1)) i property (t - (s + 1) + (e - t)) = _ from
    log_add client _ _ _ _, show log client (·.written? i property) _ (e - t) = [] from hafter,
    List.append_nil]
  rfl

/-- A property holds what was written at some time exactly if nothing else was written last. -/
theorem held_eq_iff (m : Machine σ β κ) (value : Value) (s n : Nat) :
    m.held client i property value s n = value ↔
      ∀ last, (writes client (m.after client (s + 1)) i property (n - (s + 1))).getLast? = some last →
        last = value := by
  unfold held
  cases (writes client (m.after client (s + 1)) i property (n - (s + 1))).getLast? with
  | none => exact iff_of_true rfl fun last hlast => (by cases hlast)
  | some last =>
    exact ⟨fun h _ heq => Option.some.inj heq ▸ h, fun h => h last rfl⟩

/-- A stored property reads a value, under every spelling. -/
def Reads (m : Machine σ β κ) (i : InstanceId) (property : String) (value : Value) : Prop :=
  ∀ x name spec notify equality effect, m.world.instance? i = some x →
    x.ofClass.findProperty? name = some ⟨spec, .stored notify equality effect⟩ →
    spec.name = property →
      m.world.perform (.property i name) = .reply m.world (.value (some value))

theorem reads_of_stored {x : Instance β} (hx : m.world.instance? i = some x)
    (hstored : x.stored.find? property = some value) : m.Reads i property value := by
  rintro y name spec notify equality effect hy hfind rfl
  cases hx.symm.trans hy
  exact reads_of_holds hx hfind hstored

end Machine

/-- **Effects lag behind the writes that are made while a change is reported.** Whenever the effect
of a property starts, it is given the value of the write that it belongs to, while the property
reads as what was written last since: the same value exactly if nothing else was written last while
the change was reported. When a write is answered, the property reads what it read when the effect
started last: what that effect was given, under the same condition. -/
theorem effects_lag_behind (client : Client σ β κ) (state : σ) (program : β) (i : InstanceId)
    (property : String) :
    let m : Machine σ β κ := .initial state program
    (∀ n callback inv, (m.after client n).control = .invoke callback inv →
      inv.role = .effect property → inv.self = some i →
      ∃ s value, m.EffectOf client i property value s n ∧ inv.args = [value] ∧
        (m.after client n).Reads i property (m.held client i property value s n) ∧
        (m.held client i property value s n = value ↔ ∀ last,
          (Machine.writes client (m.after client (s + 1)) i property (n - (s + 1))).getLast? =
            some last → last = value)) ∧
    ∀ n x name spec notify equality callback value k reply,
      (m.after client n).world.instance? i = some x → x.ofClass.Filed →
      x.ofClass.findProperty? name = some ⟨spec, .stored notify equality (some callback)⟩ →
      spec.name = property →
      (m.after client n).control = .perform (.setProperty i name value) →
      (∀ e, ¬x.Refuses (m.after client n).world.isA name value e) →
      (m.after client n).Answers client (.setProperty i name value) reply k →
      ∃ s t last, n ≤ s ∧ t < n + k ∧ m.EffectOf client i property last s t ∧
        (∀ j, t < j → j ≤ n + k → ¬(m.after client j).Affects i property) ∧
        (m.after client (n + k)).Reads i property (m.held client i property last s t) := by
  intro m
  have hreach : m.Reachable client := .initial state program
  constructor
  · intro n callback inv hinvoke hrole hself
    obtain ⟨s, value, heffect, hargs⟩ :=
      Machine.exists_effectOf state program hinvoke hrole hself
    obtain ⟨x, hx, hstored⟩ := heffect.holds
    exact ⟨s, value, heffect, hargs, Machine.reads_of_stored hx hstored,
      Machine.held_eq_iff m value s n⟩
  · rintro n x name spec notify equality callback value k reply hx hfiled hfind rfl hm hadmitted
      hanswers
    have hok : x.admitWrite (m.after client n).world.isA name value =
        .ok (.stored spec notify equality (some callback)) := by
      rcases Instance.admitWrite_stored (m.after client n).world.isA value hfind with ⟨e, he⟩ | hok
      · exact absurd (Instance.admitWrite_eq_error.mp he) (hadmitted e)
      · exact hok
    have hwritten : (m.after client n).written? i spec.name = some value :=
      Machine.written?_eq_some.mpr
        ⟨name, x, spec, notify, equality, some callback, hm, hx, hok, rfl⟩
    have hbusy := hanswers.busy
    have hstack := hanswers.stack
    have hcontrol := hanswers.control
    have hpos := hanswers.pos
    rw [Machine.asking_eq hm] at hbusy hstack hcontrol
    rw [← Machine.after_add] at hstack hcontrol
    obtain ⟨s, t, last, hns, ht, heffect, hsilent, hlast⟩ := Machine.exists_last_effect state program
      hx hfiled (hfiled.findProperty?_name hfind).1 hwritten (Nat.lt_add_of_pos_right hpos)
      (fun j hnj hje => by
        obtain ⟨d, rfl⟩ := Nat.exists_eq_add_of_lt hnj
        have hd := hbusy (d + 1) (Nat.succ_pos d) (by omega)
        rwa [← Machine.after_add] at hd) hstack hcontrol
    refine ⟨s, t, last, hns, ht, heffect, hlast, ?_⟩
    rintro y name' spec' notify' equality' effect' hy hfind' hname'
    have hstored := hreach.holds_since (Nat.lt_trans heffect.before ht) heffect.written
      (World.values?_eq hy)
    rw [Machine.held_of_silent m last heffect.before (Nat.le_of_lt ht) hsilent] at hstored
    exact Machine.reads_of_stored hy hstored y name' spec' notify' equality' effect' hy hfind' hname'

/-- A program that sets the title of a gauge; whoever is told of a new title sets another one. -/
def meddler : Client Unit Nat (Routine Nat) :=
  .ofRoutines
    (fun
      | 0 => { acts := [.command (.newContext { clock := .manual }),
          .command (.construct { ofClass := gaugeClass, context := ⟨0⟩ }),
          .command (.connectNotify ⟨1⟩ (some "title") 2),
          .command (.setProperty ⟨1⟩ "title" (.string "full"))] }
      | 2 => { acts := [.command (.setProperty ⟨1⟩ "title" (.string "empty"))] }
      | _ => {})
    [.object ⟨1⟩]

/-- A state of the run of `meddler`. -/
def meddlerAfter (n : Nat) : Machine Unit Nat (Routine Nat) :=
  (Machine.initial () 0).after meddler n

/-- The effect that starts: its callback, whose it is, its property and its arguments. -/
def Control.effect? : Control β → Option (β × InstanceId × String × List Value)
  | .invoke callback ⟨.effect property, some i, _, args⟩ => some (callback, i, property, args)
  | _ => none

theorem Control.of_effect? {c : Control β} (callback : β) (i : InstanceId) (property : String)
    (args : List Value) (h : c.effect? = some (callback, i, property, args)) :
    ∃ inv, c = .invoke callback inv ∧ inv.role = .effect property ∧ inv.self = some i ∧
      inv.args = args := by
  unfold effect? at h
  split at h
  · cases h
    exact ⟨_, rfl, rfl, rfl, rfl⟩
  · cases h

/-- Whether the top of the stack gets a reply. -/
def Control.delivers : Control β → Bool
  | .deliver _ => true
  | _ => false

theorem Control.of_delivers {c : Control β} (h : c.delivers = true) :
    ∃ reply, c = .deliver reply := by
  cases c with
  | deliver reply => exact ⟨reply, rfl⟩
  | _ => cases h

set_option maxRecDepth 100000 in
/-- The effect of the first title starts when the gauge has another one, and it is the last. -/
theorem effects_lag_behind_meddler :
    Machine.EffectOf meddler (.initial () 0) ⟨1⟩ "title" (.string "full") 10 32 ∧
      (meddlerAfter 32).Reads ⟨1⟩ "title" (.string "empty") ∧
      (∀ j, 32 < j → j ≤ 35 → ¬(meddlerAfter j).Affects ⟨1⟩ "title") ∧
      (meddlerAfter 35).Reads ⟨1⟩ "title" (.string "empty") := by
  obtain ⟨hstarts, hwrites⟩ := effects_lag_behind meddler () 0 ⟨1⟩ "title"
  have hheld : Machine.held meddler (.initial () 0) ⟨1⟩ "title" (.string "full") 10 32 =
      .string "empty" := by decide +kernel
  have honly : ∀ s, s < 32 → (meddlerAfter s).written? ⟨1⟩ "title" = some (.string "full") →
      s = 10 := by decide +kernel
  -- the effect that starts is that of the first write
  obtain ⟨inv, hinvoke, hrole, hself, hargs⟩ := Control.of_effect?
    (c := (meddlerAfter 32).control) 1 ⟨1⟩ "title" [.string "full"] (by decide +kernel)
  obtain ⟨s, value, heffect, hvalue, hreads, -⟩ := hstarts 32 1 inv hinvoke hrole hself
  cases hargs.symm.trans hvalue
  obtain rfl := honly s heffect.before heffect.written
  -- the first write is answered
  obtain ⟨x, spec, hx, hclass, hname, hfind⟩ : ∃ (x : Instance Nat) (spec : PropertySpec),
      (meddlerAfter 10).world.instance? ⟨1⟩ = some x ∧ x.ofClass = gaugeClass ∧
        spec.name = "title" ∧
        x.ofClass.findProperty? "title" = some ⟨spec, .stored none none (some 1)⟩ :=
    ⟨_, _, rfl, rfl, rfl, rfl⟩
  have hm : (meddlerAfter 10).control = .perform (.setProperty ⟨1⟩ "title" (.string "full")) :=
    Control.eq_of_write? (by decide +kernel)
  have hadmitted : ∀ e, ¬x.Refuses (meddlerAfter 10).world.isA "title" (.string "full") e := by
    intro e he
    have hok : ((meddlerAfter 10).world.instance? ⟨1⟩).map (fun x =>
        (x.admitWrite (meddlerAfter 10).world.isA "title" (.string "full")).isOk) = some true := by
      decide +kernel
    rw [hx, Option.map_some, Instance.admitWrite_eq_error.mpr he] at hok
    cases hok
  obtain ⟨reply, hreply⟩ := Control.of_delivers (c := (meddlerAfter 35).control) (by decide +kernel)
  have hbusy : ∀ i, i < 25 → 0 < i → (meddlerAfter 10).stack.length <
      ((meddlerAfter 10).after meddler i).stack.length := by decide +kernel
  have hlater : (meddlerAfter 10).after meddler 25 = meddlerAfter 35 :=
    (Machine.after_add meddler (.initial () 0) 10 25).symm
  have hanswers : (meddlerAfter 10).Answers meddler (.setProperty ⟨1⟩ "title" (.string "full"))
      reply 25 :=
    .of_perform hm (fun i hpos hi => hbusy i hi hpos) (by decide +kernel) (hlater ▸ hreply)
  obtain ⟨s, t, last, -, ht, hlast, hnone, hfinal⟩ := hwrites 10 x "title" spec none none 1
    (.string "full") 25 reply hx (hclass ▸ gaugeClass_built.filed) hfind hname hm hadmitted hanswers
  -- the last effect is the one that starts after 32 steps
  have hover : ∀ j, j < 35 → 32 < j → (meddlerAfter j).control.effect? = none := by decide +kernel
  obtain ⟨callback, hcallback⟩ := hlast.starts
  obtain rfl : t = 32 := by
    rcases Nat.lt_trichotomy t 32 with hlt | heq | hgt
    · exact absurd ⟨1, inv, hinvoke, hrole, hself⟩ (hnone 32 hlt (by decide))
    · exact heq
    · have hsome := hover t ht hgt
      rw [show (meddlerAfter t).control = _ from hcallback] at hsome
      cases hsome
  cases hinvoke.symm.trans hcallback
  cases hargs
  obtain rfl := honly s hlast.before hlast.written
  rw [hheld] at hreads hfinal
  exact ⟨heffect, hreads, hnone, hfinal⟩

set_option maxRecDepth 100000 in
/-- An effect is not always given what its property reads. -/
theorem meddled_effect_is_stale :
    ¬∀ (n : Nat) (callback : Nat) (inv : Invocation) (i : InstanceId) (property : String)
        (value : Value), (meddlerAfter n).control = .invoke callback inv →
      inv.role = .effect property → inv.self = some i → inv.args = [value] →
      (meddlerAfter n).Reads i property value := by
  intro h
  obtain ⟨inv, hinvoke, hrole, hself, hargs⟩ := Control.of_effect?
    (c := (meddlerAfter 32).control) 1 ⟨1⟩ "title" [.string "full"] (by decide +kernel)
  have hreads := h 32 1 inv ⟨1⟩ "title" (.string "full") hinvoke hrole hself hargs
  -- what is stored then is the other title
  have hstored : ((meddlerAfter 32).world.instance? ⟨1⟩).map (·.stored.find? "title") =
      some (some (.string "empty")) := by decide +kernel
  obtain ⟨x, hx, hstored⟩ := Option.map_eq_some_iff.mp hstored
  obtain ⟨y, spec, hy, hclass, hname, hfind⟩ : ∃ (y : Instance Nat) (spec : PropertySpec),
      (meddlerAfter 10).world.instance? ⟨1⟩ = some y ∧ y.ofClass = gaugeClass ∧
        spec.name = "title" ∧
        gaugeClass.findProperty? "title" = some ⟨spec, .stored none none (some 1)⟩ :=
    ⟨_, _, rfl, rfl, rfl, rfl⟩
  have hlater : (meddlerAfter 10).after meddler 22 = meddlerAfter 32 :=
    (Machine.after_add meddler (.initial () 0) 10 22).symm
  have hkept := (Machine.stored_of_writes ((Machine.Reachable.initial () 0).after 10)
    (World.values?_eq hy) (n := 22) (World.values?_eq (hlater ▸ hx))).1
  rw [← hclass, ← hkept] at hfind
  have hempty := Machine.reads_of_holds hx hfind (hname ▸ hstored)
  have hfull := hreads x "title" spec none none (some 1) hx hfind hname
  have hsame := Reply.value.inj (Control.deliver.inj
    (congrArg Progress.control (hfull.symm.trans hempty)))
  revert hsame
  decide

end ObjectSystem
