import ObjectSystem.Proofs.Bursts
import ObjectSystem.Proofs.Waiting

/-!
# What a step does for one debounced method

Of all that a step can do, little concerns one method of one instance: a call of it runs at once or
starts the interval anew, a run that has ended starts the interval, or the timer ends the burst. Every
other step leaves its burst and its timer alone. `Machine.Service` lists these cases, and
`Machine.service_step` says that a step is always one of them.
-/

namespace ObjectSystem

variable {σ β κ : Type}

open Machine (marks Reachable)

/-! ## Bursts that stay as they are -/

namespace World

/-- If an instance is there later, it was there before, with the same burst of a method. -/
def SameBurst (i : InstanceId) (name : String) (w v : World β) : Prop :=
  i.number < w.nextInstance → ∀ e', v.duties? i = some e' →
    ∃ e, w.duties? i = some e ∧ e'.burst name = e.burst name

section
variable {u v w : World β} {i j : InstanceId} {name other : String}

theorem sameBurst_of_eq (h : ∀ i, v.duties? i = w.duties? i) : SameBurst i name w v :=
  fun _ e' he' => ⟨e', (h i).symm.trans he', rfl⟩

theorem Steady.sameBurst (h : Steady w v) : SameBurst i name w v :=
  fun _ e' he' => ⟨e', h.duties_of_some he', rfl⟩

theorem SameBurst.trans (h : SameBurst i name u v) (hn : u.nextInstance ≤ v.nextInstance)
    (g : SameBurst i name v w) : SameBurst i name u w := by
  intro hlt e'' he''
  obtain ⟨e', he', hburst'⟩ := g (Nat.lt_of_lt_of_le hlt hn) e'' he''
  obtain ⟨e, he, hburst⟩ := h hlt e' he'
  exact ⟨e, he, hburst'.trans hburst⟩

theorem SameBurst.steady (h : SameBurst i name u v) (hn : u.nextInstance ≤ v.nextInstance)
    (hw : Steady v w) : SameBurst i name u w :=
  h.trans hn hw.sameBurst

theorem sameBurst_modifyInstance (w : World β) (j : InstanceId) {f : Instance β → Instance β}
    (hf : ∀ x : Instance β, j = i → (f x).duties.burst name = x.duties.burst name) :
    SameBurst i name w (w.modifyInstance j f) := by
  intro _ e' he'
  rw [duties?_modifyInstance] at he'
  split at he'
  · next hi =>
      obtain ⟨x, hx, rfl⟩ := Option.map_eq_some_iff.mp he'
      exact ⟨x.duties, duties?_eq hx, hf x hi.symm⟩
  · exact ⟨e', he', rfl⟩

/-- The burst of another method. -/
theorem sameBurst_setBurst (w : World β) (hne : (j, other) ≠ (i, name)) (burst : Burst) :
    SameBurst i name w (w.modifyInstance j (·.setBurst other burst)) := by
  refine sameBurst_modifyInstance w j fun x hj => ?_
  rw [Duties.burst_setBurst, if_neg]
  rintro rfl
  exact hne (by rw [hj])

theorem sameBurst_addInstance (w : World β) (ofClass : Class β) (c : ContextId) :
    SameBurst i name w (w.addInstance ofClass c).1 := by
  intro hlt e' he'
  rw [duties?_addInstance] at he'
  rcases Option.or_eq_some_iff.mp he' with hold | ⟨-, hnew⟩
  · exact ⟨e', hold, rfl⟩
  · split at hnew
    · next hi =>
        subst hi
        exact absurd hlt (Nat.lt_irrefl _)
    · cases hnew

theorem sameBurst_dispose (w : World β) (hne : j ≠ i) : SameBurst i name w (w.dispose j) := by
  refine dispose_induction w j (sameBurst_of_eq fun _ => rfl) fun x _ _ => ?_
  refine SameBurst.trans ?_ ?_ (sameBurst_modifyInstance _ j fun _ hj => absurd hj hne)
  · exact sameBurst_of_eq fun _ => rfl
  · exact Nat.le_refl _

theorem sameBurst_scheduleHooks (w : World β) (j : InstanceId) (x : Instance β) :
    SameBurst i name w (w.scheduleHooks j x) := by
  have hall := scheduleHooks_induction
    (P := fun v => w.nextInstance = v.nextInstance ∧ SameBurst i name w v) w j x
    ⟨rfl, sameBurst_of_eq fun _ => rfl⟩ fun v typeName hook hv => by
      refine scheduleReady_induction v j typeName hook hv fun z y _ _ => ?_
      refine ⟨hv.1, hv.2.trans (Nat.le_of_eq hv.1) ?_⟩
      refine SameBurst.trans ?_ ?_ (sameBurst_modifyInstance _ j fun _ _ => rfl)
      · exact sameBurst_of_eq fun _ => rfl
      · exact Nat.le_refl _
  exact hall.2

theorem sameBurst_restartBurst (w : World β) (hne : (j, other) ≠ (i, name)) (debounce : Debounce)
    (callback : β) : SameBurst i name w (w.restartBurst j other debounce callback) := by
  refine restartBurst_induction w j other debounce callback (sameBurst_of_eq fun _ => rfl)
    fun x y _ _ => ?_
  refine SameBurst.trans ?_ ?_ (sameBurst_setBurst _ hne _)
  · exact sameBurst_of_eq fun _ => rfl
  · exact Nat.le_refl _

/-- The work of a source that is not the timer of a method leaves its burst alone. -/
theorem sameBurst_startWork (w : World β) (c : ContextId) (id : SourceId) {work : SourceWork β}
    (hne : work.entry? ≠ some (i, some name)) :
    SameBurst i name w (w.startWork c id work []).world := by
  refine startWork_induction w c id work [] (sameBurst_of_eq fun _ => rfl) ?_ ?_
  · exact fun j typeName hook _ => sameBurst_modifyInstance w j fun _ _ => rfl
  · intro j other trigger callback burst hwork
    refine sameBurst_setBurst w ?_ _
    rintro ⟨⟩
    exact hne (hwork ▸ rfl)

end

end World

/-! ## Cases of service -/

/-- Whether a frame is to start the interval of a method. -/
def Frame.starts (i : InstanceId) (name : String) : Frame β → Bool
  | .startInterval j other _ _ => j = i && other = name
  | _ => false

/-- The timer that is attached when an interval starts. -/
def Timetable.timer (t : Timetable β) (i : InstanceId) (name : String) (d : Debounce)
    (callback : β) : Source β :=
  t.fresh (.timeout d.interval) .standard (.endOfBurst i name d.trigger callback)

namespace Machine

/-- The call of a method that is about to be carried out. -/
def callOf (m : Machine σ β κ) (c : ContextId) (i : InstanceId) (name : String) : List Timed :=
  match m.control with
  | .perform (.call j other args) => if j = i ∧ other = name then [⟨m.time c, args⟩] else []
  | _ => []

/-- The run of a method that is about to start. -/
def runOf (m : Machine σ β κ) (c : ContextId) (i : InstanceId) (name : String) : List Timed :=
  match m.control with
  | .invoke _ inv =>
    if inv.role = .method name ∧ inv.self = some i then [⟨m.time c, inv.args⟩] else []
  | _ => []

/-- The operations in progress that are to start the interval of a method. -/
def starting (m : Machine σ β κ) (i : InstanceId) (name : String) : List (Frame β) :=
  (marks m.stack).filter (·.starts i name)

/-- A context and a live instance in it with a debounced method. -/
structure Serves (m : Machine σ β κ) (c : ContextId) (i : InstanceId) (name : String)
    (d : Debounce) (callback : β) (t : Timetable β) (e : Duties β) : Prop where
  timetable : m.world.timetable? c = some t
  duties : m.world.duties? i = some e
  context : e.context = c
  method : e.ofClass.findMethod? name = some ⟨callback, some d⟩
  alive : e.disposed = false

/-- What a step does for a debounced method. -/
inductive Service (m m' : Machine σ β κ) (c : ContextId) (i : InstanceId) (name : String)
    (d : Debounce) (callback : β) (t t' : Timetable β) (e e' : Duties β) : Prop
  /-- Nothing. -/
  | keeps (hcall : m.callOf c i name = []) (hrun : m'.runOf c i name = [])
      (hburst : e'.burst name = e.burst name) (hstarting : m'.starting i name = m.starting i name)
      (hwaits : ∀ s, (e.burst name).pending = some s.id →
        s.work.entry? = some (i, some name) → m.world.Waits c s → m'.world.Waits c s)
  /-- A call runs at once. -/
  | runs (args : List Value) (hcall : m.callOf c i name = [⟨t.now, args⟩])
      (hrun : m'.runOf c i name = [⟨t.now, args⟩])
      (hbody : ∀ f inv, m'.control = .invoke f inv → f = callback) (hnow : t'.now = t.now)
      (hat : (e.burst name).runsAtOnce d.trigger = true)
      (hburst : e'.burst name = (e.burst name).record d.trigger args)
      (hstarting : m'.starting i name = .startInterval i name d callback :: m.starting i name)
  /-- A call starts the interval anew. -/
  | delays (args : List Value) (hcall : m.callOf c i name = [⟨t.now, args⟩])
      (hrun : m'.runOf c i name = []) (hnow : t'.now = t.now)
      (hat : (e.burst name).runsAtOnce d.trigger = false)
      (hburst : e'.burst name =
        { (e.burst name).record d.trigger args with pending := some ⟨t.nextSource⟩ })
      (hstarting : m'.starting i name = m.starting i name)
      (hwaits : m'.world.Waits c (t.timer i name d callback))
  /-- After a run at once, the interval starts. -/
  | starts (debounce : Debounce) (f : β) (hcall : m.callOf c i name = [])
      (hrun : m'.runOf c i name = []) (hnow : t'.now = t.now)
      (hburst : e'.burst name = { e.burst name with pending := some ⟨t.nextSource⟩ })
      (hstarting : m.starting i name = .startInterval i name debounce f :: m'.starting i name)
      (hwaits : m'.world.Waits c (t.timer i name debounce f))
  /-- The timer ends the burst. -/
  | ends (s : Source β) (hcall : m.callOf c i name = []) (hs : s ∈ t.sources)
      (hidle : s.running = false) (hwaiting : s.id ∈ (m.desk c).waiting)
      (hpending : (e.burst name).pending = some s.id) (trigger : Trigger) (f : β)
      (hwork : s.work = .endOfBurst i name trigger f) (hnow : t'.now = t.now)
      (hburst : e'.burst name = ((e.burst name).finish trigger).1)
      (hrun : m'.runOf c i name =
        (((e.burst name).finish trigger).2.map fun args => Timed.mk t.now args).toList)
      (hbody : ∀ f' inv, m'.control = .invoke f' inv → f' = f)
      (hstarting : m'.starting i name = m.starting i name)

end Machine

/-! ## Calls -/

section
variable {client : Client σ β κ} {m : Machine σ β κ} {c : ContextId} {i : InstanceId}
  {name : String} {d : Debounce} {callback : β} {t t' : Timetable β} {e e' : Duties β}

open Machine (Serves Service)

theorem runOf_of_run {m' : Machine σ β κ} {f : β} {args : List Value}
    (ht : m'.world.timetable? c = some t')
    (hc : m'.control = .invoke f { role := .method name, self := some i, args }) :
    m'.runOf c i name = [⟨t'.now, args⟩] := by
  unfold Machine.runOf
  rw [hc, ← Machine.time_eq ht]
  exact if_pos ⟨rfl, rfl⟩

/-- A call of the method runs at once or starts its interval anew. -/
theorem service_call (h : m.Serves c i name d callback t e)
    (h' : (m.step client).Serves c i name d callback t' e') {args : List Value}
    (hm : m.control = .perform (.call i name args)) :
    Service m (m.step client) c i name d callback t t' e e' := by
  have hf := Machine.follows_perform client hm
  obtain ⟨x, hx, rfl⟩ := Option.map_eq_some_iff.mp h.duties
  have htime : m.time c = t.now := Machine.time_eq h.timetable
  have hcall : m.callOf c i name = [⟨t.now, args⟩] := by
    unfold Machine.callOf
    rw [hm]
    dsimp only
    rw [if_pos ⟨rfl, rfl⟩, htime]
  have hperform : m.world.perform (.call i name args) = m.world.call i name args := rfl
  rw [hperform] at hf
  unfold World.call at hf
  rw [hx] at hf
  dsimp only at hf
  rw [show x.disposed = false from h.alive,
    show x.ofClass.findMethod? name = some ⟨callback, some d⟩ from h.method] at hf
  simp only [Bool.false_eq_true, if_false] at hf
  have hlookup : ((x.setBurst name ((x.burst name).record d.trigger args)).duties).burst name =
      (x.duties.burst name).record d.trigger args := by
    rw [Duties.burst_setBurst, if_pos rfl]
    rfl
  have hmodified : (m.world.modifyInstance i
      (·.setBurst name ((x.burst name).record d.trigger args))).instance? i =
        some (x.setBurst name ((x.burst name).record d.trigger args)) := by
    rw [World.instance?_modifyInstance, if_pos rfl, hx]
    rfl
  split at hf
  · next hat =>
      have hw : World.Steady (m.world.modifyInstance i
          (·.setBurst name ((x.burst name).record d.trigger args))) (m.step client).world :=
        hf.world.toSteady
      have he' := (hw.duties_of_some h'.duties).symm.trans (World.duties?_eq hmodified)
      have ht' := (hw.timetable c).symm.trans h'.timetable
      obtain rfl := Option.some.inj he'
      obtain rfl := Option.some.inj (h.timetable.symm.trans ht')
      refine .runs args hcall (runOf_of_run h'.timetable hf.control) (fun f inv hc => ?_) rfl hat
        hlookup ?_
      · cases hf.control.symm.trans hc
        rfl
      · unfold Machine.starting
        rw [hf.stack]
        show (marks (.operation (.startInterval i name d callback) :: m.stack)).filter _ = _
        rw [Machine.marks_operation]
        simp [Frame.isMark, Frame.starts]
  · next hat =>
      have hw : World.Steady ((m.world.modifyInstance i
          (·.setBurst name ((x.burst name).record d.trigger args))).restartBurst
            i name d callback) (m.step client).world := hf.world.toSteady
      have hcontext : x.context = c := h.context
      obtain ⟨hduties, hwaits⟩ := World.restartBurst_views hmodified (t := t)
        (hcontext ▸ h.timetable) name d callback
      have hburst := hduties e' (hw.duties_of_some h'.duties)
      rw [hlookup] at hburst
      have hnow : t'.now = t.now := by
        have hedited := World.edited_restartBurst (m.world.modifyInstance i
          (·.setBurst name ((x.burst name).record d.trigger args))) i name d callback c
        rw [← hw.timetable c, h'.timetable,
          show World.timetable? (World.modifyInstance _ _ _) c = some t from h.timetable] at hedited
        cases hedited with
        | some hedited => exact hedited.now
      refine .delays args hcall ?_ hnow (Bool.eq_false_iff.mpr hat) hburst ?_
        (hcontext ▸ hwaits.steady hw)
      · unfold Machine.runOf
        rw [hf.control]
        rfl
      · unfold Machine.starting
        rw [hf.stack]
        rfl

/-! ## Other steps -/

theorem runOf_of_isPlain {m' : Machine σ β κ} (h : m'.control.isPlain = true) :
    m'.runOf c i name = [] := by
  unfold Machine.runOf
  split
  · next callback inv hc =>
      rw [hc] at h
      refine if_neg fun hrole => ?_
      rw [Control.isPlain, hrole.1] at h
      cases h
  · rfl

theorem runOf_of_role {m' : Machine σ β κ} {f : β} {inv : Invocation}
    (hc : m'.control = .invoke f inv) (hrole : inv.role ≠ .method name) :
    m'.runOf c i name = [] := by
  unfold Machine.runOf
  rw [hc]
  exact if_neg fun h => hrole h.1

/-- A run of another method is none of this one. -/
theorem runOf_of_ne {m' : Machine σ β κ} {f : β} {j : InstanceId} {other : String}
    {args : List Value} (hne : (j, other) ≠ (i, name))
    (hc : m'.control = .invoke f { role := .method other, self := some j, args }) :
    m'.runOf c i name = [] := by
  unfold Machine.runOf
  rw [hc]
  refine if_neg fun ⟨hrole, hself⟩ => hne ?_
  cases hrole
  cases hself
  rfl

/-- A source that starts runs the method only if it is its timer. -/
theorem runOf_of_startWork {m' : Machine σ β κ} {w : World β} {d : ContextId} {id : SourceId}
    {work : SourceWork β} (hc : m'.control = (w.startWork d id work []).control)
    (hne : work.entry? ≠ some (i, some name)) : m'.runOf c i name = [] := by
  refine World.startWork_cases (P := fun work p => m'.control = p.control →
    work.entry? ≠ some (i, some name) → m'.runOf c i name = []) w d id work []
    ?_ ?_ ?_ ?_ ?_ ?_ ?_ ?_ hc hne
  · exact fun _ hc _ => runOf_of_role hc nofun
  · exact fun _ hc _ => runOf_of_role hc nofun
  · exact fun _ _ _ _ hc _ => runOf_of_isPlain (hc ▸ rfl)
  · exact fun _ _ _ _ hc _ => runOf_of_role hc nofun
  · exact fun _ _ _ _ hc _ => runOf_of_role hc nofun
  · exact fun _ _ _ _ _ hc _ => runOf_of_isPlain (hc ▸ rfl)
  · exact fun _ _ _ _ _ _ _ _ _ hc _ => runOf_of_isPlain (hc ▸ rfl)
  · intro j other trigger f x burst args _ _ _ hc hne
    refine runOf_of_ne (fun heq => hne ?_) hc
    cases heq
    rfl

/-- The timer that starts ends the burst of its method, and runs the call that waits. -/
theorem startWork_timer {w : World β} {x : Instance β} (hx : w.instance? i = some x)
    {timer : SourceId} (hpending : (x.duties.burst name).pending = some timer) (c : ContextId)
    (id : SourceId) (trigger : Trigger) (f : β) :
    (w.startWork c id (.endOfBurst i name trigger f) []).world =
        w.modifyInstance i (·.setBurst name ((x.duties.burst name).finish trigger).1) ∧
      (w.startWork c id (.endOfBurst i name trigger f) []).control =
        match ((x.duties.burst name).finish trigger).2 with
        | some args => .invoke f { role := .method name, self := some i, args }
        | none => .deliver .proceed := by
  obtain ⟨burst, hburst⟩ : ∃ burst, x.bursts.find? name = some burst := by
    refine Option.ne_none_iff_exists'.mp fun hnone => ?_
    have hfresh : x.duties.burst name = {} := by
      show (x.bursts.find? name).getD {} = {}
      rw [hnone]
      rfl
    rw [hfresh] at hpending
    cases hpending
  have hfound : x.duties.burst name = burst := by
    show (x.bursts.find? name).getD {} = burst
    rw [hburst]
    rfl
  rw [World.startWork_endOfBurst hx hburst, hfound]
  cases (burst.finish trigger).2 with
  | none => exact ⟨rfl, rfl⟩
  | some args => exact ⟨rfl, rfl⟩

theorem callOf_eq_nil (hcall : ∀ args, m.control ≠ .perform (.call i name args)) :
    m.callOf c i name = [] := by
  unfold Machine.callOf
  split
  · next j other args hm =>
      refine if_neg fun hpair => ?_
      obtain ⟨rfl, rfl⟩ := hpair
      exact hcall args hm
  · rfl

theorem Machine.starting_eq {ms : List (Frame β)} (hs : marks m.stack = ms) :
    m.starting i name = ms.filter (·.starts i name) := by
  unfold Machine.starting
  rw [hs]

theorem filter_starts_self (debounce : Debounce) (f : β) (ms : List (Frame β)) :
    (.startInterval i name debounce f :: ms).filter (·.starts i name) =
      .startInterval i name debounce f :: ms.filter (·.starts i name) :=
  List.filter_cons_of_pos (by simp [Frame.starts])

theorem filter_starts_of_ne {j : InstanceId} {other : String} (hne : (j, other) ≠ (i, name))
    (debounce : Debounce) (f : β) (ms : List (Frame β)) :
    (.startInterval j other debounce f :: ms).filter (·.starts i name) =
      ms.filter (·.starts i name) := by
  refine List.filter_cons_of_neg fun heq => ?_
  simp only [Frame.starts, Bool.and_eq_true, decide_eq_true_eq] at heq
  exact hne (by rw [heq.1, heq.2])

theorem filter_starts_of_construction {j : InstanceId} {g : Frame β} (hg : g.IsConstruction j)
    (ms : List (Frame β)) :
    (g :: ms).filter (·.starts i name) = ms.filter (·.starts i name) := by
  refine List.filter_cons_of_neg ?_
  cases g with
  | constructing j' properties => exact Bool.false_ne_true
  | initializing j' hooks => exact Bool.false_ne_true
  | _ => cases hg

section Turns

variable {m' : Machine σ β κ} (h : m.Serves c i name d callback t e)
  (h' : m'.Serves c i name d callback t' e')

include h h'

/-- What leaves burst, marks and timer alone is no service. -/
theorem service_keeps (htracked : m.world.Tracked) {w : World β} (hw : World.Steady w m'.world)
    (hn : m.world.nextInstance ≤ w.nextInstance) (hburst : World.SameBurst i name m.world w)
    (hwaits : ∀ s, (e.burst name).pending = some s.id → s.work.entry? = some (i, some name) →
      m.world.Waits c s → w.Waits c s)
    (hcall : m.callOf c i name = []) (hs : m'.starting i name = m.starting i name)
    (hrun : m'.runOf c i name = []) :
    Service m m' c i name d callback t t' e e' := by
  have hlt : i.number < m.world.nextInstance := htracked.created i e h.duties
  obtain ⟨e₀, he₀, hsame⟩ := hburst.steady hn hw hlt e' h'.duties
  obtain rfl := Option.some.inj (h.duties.symm.trans he₀)
  exact .keeps hcall hrun hsame hs fun s hp he hs => (hwaits s hp he hs).steady hw

/-- After a run at once the interval of the method starts. -/
theorem service_starts {debounce : Debounce} {f : β}
    (hw : World.Steady (m.world.restartBurst i name debounce f) m'.world)
    (hs : marks m.stack = .startInterval i name debounce f :: marks m'.stack)
    (hcall : m.callOf c i name = []) (hrun : m'.runOf c i name = []) :
    Service m m' c i name d callback t t' e e' := by
  obtain ⟨x, hx, rfl⟩ := Option.map_eq_some_iff.mp h.duties
  have hcontext : x.context = c := h.context
  obtain ⟨hduties, hwaits⟩ := World.restartBurst_views hx (t := t)
    (hcontext ▸ h.timetable) name debounce f
  have hnow : t'.now = t.now := by
    have hedited := World.edited_restartBurst m.world i name debounce f c
    rw [← hw.timetable c, h'.timetable, h.timetable] at hedited
    cases hedited with
    | some hedited => exact hedited.now
  refine .starts debounce f hcall hrun hnow (hduties e' (hw.duties_of_some h'.duties)) ?_
    (hcontext ▸ hwaits.steady hw)
  rw [Machine.starting_eq hs]
  exact filter_starts_self debounce f _

/-- The timer of the method starts. -/
theorem service_ends (hcall : m.callOf c i name = []) {x y : MainContext β} {s : Source β}
    (hx : m.world.context? c = some x) (hy : y.timetable.now = x.timetable.now)
    (hs : s ∈ x.timetable.sources) (hidle : s.running = false)
    (hwaiting : s.id ∈ (m.desk c).waiting) (hpending : (e.burst name).pending = some s.id)
    {trigger : Trigger} {f : β} (hwork : s.work = .endOfBurst i name trigger f)
    (hw : World.Steady ((m.world.setContext c y).startWork c s.id s.work []).world m'.world)
    (hc : m'.control = ((m.world.setContext c y).startWork c s.id s.work []).control)
    (hstarting : m'.starting i name = m.starting i name) :
    Service m m' c i name d callback t t' e e' := by
  obtain rfl := Option.some.inj ((World.timetable?_eq hx).symm.trans h.timetable)
  have hnow : t'.now = x.timetable.now := by
    have ht' := (hw.timetable c).trans (Turn.timetable?_startWork _ c s.id s.work c)
    rw [World.timetable?_setContext m.world hx, if_pos rfl, h'.timetable] at ht'
    rw [Option.some.inj ht', hy]
  obtain ⟨z, hz, rfl⟩ := Option.map_eq_some_iff.mp h.duties
  have hz' : (m.world.setContext c y).instance? i = some z := hz
  obtain ⟨hworld, hcontrol⟩ := startWork_timer hz' hpending c s.id trigger f
  rw [hwork, hworld] at hw
  rw [hwork, hcontrol] at hc
  have he' := hw.duties_of_some h'.duties
  rw [World.duties?_modifyInstance, if_pos rfl, hz'] at he'
  obtain rfl := Option.some.inj he'
  refine .ends s hcall hs hidle hwaiting hpending trigger f hwork hnow ?_ ?_ ?_ hstarting
  · rw [Duties.burst_setBurst, if_pos rfl]
  · cases hargs : ((z.duties.burst name).finish trigger).2 with
    | none =>
        rw [hargs] at hc
        exact runOf_of_isPlain (hc ▸ rfl)
    | some args =>
        rw [hargs] at hc
        rw [runOf_of_run h'.timetable hc, hnow]
        rfl
  · intro f' inv hc'
    rw [hc] at hc'
    split at hc' <;> cases hc'
    rfl

/-- A source starts: the timer of the method, or another one. -/
theorem service_begins (hsound : ∀ c, (m.desk c).Sound) (htracked : m.world.Tracked)
    (hcall : m.callOf c i name = []) {b : ContextId} {x y : MainContext β} {id : SourceId}
    {work : SourceWork β} (hx : m.world.context? b = some x) (hb : x.beginRun id = some (y, work))
    (hwaiting : id ∈ (m.desk b).waiting)
    (hw : World.Steady ((m.world.setContext b y).startWork b id work []).world m'.world)
    (hc : m'.control = ((m.world.setContext b y).startWork b id work []).control)
    (hstarting : m'.starting i name = m.starting i name) :
    Service m m' c i name d callback t t' e e' := by
  obtain ⟨s, hsource, hidle, rfl, hy⟩ := MainContext.of_beginRun hb
  obtain ⟨hmem, rfl⟩ := Timetable.mem_of_source? hsource
  by_cases hentry : s.work.entry? = some (i, some name)
  · obtain ⟨trigger, f, hwork⟩ := SourceWork.of_entry? hentry
    obtain ⟨-, hrecords⟩ := htracked.tracks b _ (World.timetable?_eq hx) s hmem i
      (by rw [hwork]; rfl)
    obtain ⟨hcontext, hpending⟩ := hrecords hidle e h.duties
    rw [hwork] at hpending
    obtain rfl : b = c := hcontext.symm.trans h.context
    exact service_ends h h' hcall hx (by rw [hy]; rfl) hmem hidle hwaiting hpending hwork hw hc
      hstarting
  · refine service_keeps h h' htracked hw
      (World.ages_startWork (m.world.setContext b y) b s.id s.work).next
      ((World.sameBurst_of_eq fun _ => rfl).trans (Nat.le_refl _)
        (World.sameBurst_startWork (m.world.setContext b y) b s.id hentry))
      (fun r _ hr hwaits => ?_) hcall hstarting (runOf_of_startWork hc hentry)
    -- what waits is another source, since its work is that of the timer
    have hkept : (m.world.setContext b y).Waits c r := by
      refine hwaits.beginRun hx hb fun hbc hid => ?_
      subst hbc
      obtain ⟨u, hu, r', hr', hid', -, hwork', -, -⟩ := hwaits
      obtain rfl := Option.some.inj ((World.timetable?_eq hx).symm.trans hu)
      obtain rfl := ((hsound b).present _ hu).eq_of_id hr' hmem (hid'.trans hid)
      rw [hwork'] at hentry
      exact hentry hr
    exact hkept.of_eq (Turn.timetable?_startWork _ b s.id s.work c)

/-- A call of another method starts an interval later. -/
theorem service_callsLater (htracked : m.world.Tracked) (haccurate : m.world.Accurate)
    (hcall : m.callOf c i name = []) {j : InstanceId} {other : String}
    (hne : (j, other) ≠ (i, name)) {args : List Value} {x : Instance β} {f : β}
    {debounce : Debounce} (hx : m.world.instance? j = some x)
    (hw : World.Steady ((m.world.modifyInstance j
        (·.setBurst other ((x.burst other).record debounce.trigger args))).restartBurst
          j other debounce f) m'.world)
    (hs : m'.starting i name = m.starting i name) (hrun : m'.runOf c i name = []) :
    Service m m' c i name d callback t t' e e' := by
  have hrecorded : World.Accurate (m.world.modifyInstance j (·.setBurst other
      ((x.burst other).record debounce.trigger args))) :=
    haccurate.enters (World.enters_record hx other debounce.trigger args)
      (World.edited_modifyInstance j _).continues
  refine service_keeps h h' htracked hw ((World.ages_setBurst _ j other _).trans
      (World.ages_restartBurst _ j other debounce f)).next
    ((World.sameBurst_setBurst _ hne _).trans (Nat.le_refl _)
      (World.sameBurst_restartBurst _ hne debounce f))
    (fun s _ hentry hs => ?_) hcall hs hrun
  have hkept : (m.world.modifyInstance j (·.setBurst other
      ((x.burst other).record debounce.trigger args))).Waits c s := hs.of_eq rfl
  refine hkept.restartBurst hrecorded hentry (fun heq => hne ?_) debounce f
  cases heq
  rfl

/-- A step that is no call of the method. -/
theorem service_turn (hturn : Turn m m')
    (hsound : ∀ c, (m.desk c).Sound) (htracked : m.world.Tracked) (haccurate : m.world.Accurate)
    (hcall : ∀ args, m.control ≠ .perform (.call i name args))
    (hremove : ∀ id, m.control = .perform (.removeSource c id) →
      (e.burst name).pending ≠ some id) :
    Service m m' c i name d callback t t' e e' := by
  have hnone : m.callOf c i name = [] := callOf_eq_nil hcall
  have same {w : World β} (h : ∀ i, w.duties? i = m.world.duties? i) :
      World.SameBurst i name m.world w := World.sameBurst_of_eq h
  have other {j : InstanceId} {name' : String} {args : List Value}
      (hm : m.control = .perform (.call j name' args)) : (j, name') ≠ (i, name) := by
    intro heq
    cases heq
    exact hcall args hm
  cases hturn with
  | still hw hs hc =>
      exact service_keeps h h' htracked hw (Nat.le_refl _) (same fun _ => rfl) (fun _ _ _ hs => hs)
        hnone (Machine.starting_eq hs) (runOf_of_isPlain hc)
  | opens config hw hs hc =>
      exact service_keeps h h' htracked hw (Nat.le_refl _) (same fun _ => rfl)
        (fun _ _ _ hs => hs.addContext config) hnone (Machine.starting_eq hs) (runOf_of_isPlain hc)
  | ticks b now hm hw hs hc =>
      exact service_keeps h h' htracked hw (Nat.le_refl _) (same fun _ => rfl)
        (fun _ _ _ hs => hs.setTime b now) hnone (Machine.starting_eq hs) (runOf_of_isPlain hc)
  | attaches b x kind priority work hx hp hw hs hc =>
      exact service_keeps h h' htracked hw (Nat.le_refl _) (same fun _ => rfl)
        (fun _ _ _ hs => hs.attachNow hx kind priority work) hnone (Machine.starting_eq hs)
        (runOf_of_isPlain hc)
  | detaches b x id hm hx hw hs hc =>
      refine service_keeps h h' htracked hw (Nat.le_refl _) (same fun _ => rfl)
        (fun s hpending _ hs => hs.detach hx fun hb hid => ?_) hnone (Machine.starting_eq hs)
        (runOf_of_isPlain hc)
      subst hb hid
      exact hremove s.id hm hpending
  | creates ofClass b hw hs hc =>
      refine service_keeps h h' htracked hw (Nat.le_succ _) (World.sameBurst_addInstance _ ofClass b)
        (fun _ _ _ hs => hs.of_eq rfl) hnone ?_ (runOf_of_isPlain hc)
      rcases hs with hs | ⟨g, hg, hs⟩
      · exact Machine.starting_eq hs
      · rw [Machine.starting_eq hs, filter_starts_of_construction hg]
        rfl
  | disposes j hm hw hs hc =>
      have hne : j ≠ i := by
        rintro rfl
        obtain ⟨x, hx, rfl⟩ := Option.map_eq_some_iff.mp h.duties
        have hd := hw.duties_of_some h'.duties
        rw [World.duties?_dispose hx h.alive, if_pos rfl] at hd
        obtain rfl := Option.some.inj hd
        cases h'.alive
      exact service_keeps h h' htracked hw (World.ages_dispose _ j).next
        (World.sameBurst_dispose _ hne) (fun _ _ hentry hs => hs.dispose haccurate hentry hne)
        hnone (Machine.starting_eq hs) (runOf_of_isPlain hc)
  | calls j name' args x f hm hx hd hf hw hs hc =>
      exact service_keeps h h' htracked hw (Nat.le_refl _) (same fun _ => rfl) (fun _ _ _ hs => hs)
        hnone (Machine.starting_eq hs) (runOf_of_ne (other hm) hc)
  | callsAtOnce j name' args x f debounce hm hx hd hf hr hw hs hc =>
      refine service_keeps h h' htracked hw (Nat.le_refl _) (World.sameBurst_setBurst _ (other hm) _)
        (fun _ _ _ hs => hs.of_eq rfl) hnone ?_ (runOf_of_ne (other hm) hc)
      rw [Machine.starting_eq hs, filter_starts_of_ne (other hm)]
      rfl
  | callsLater j name' args x f debounce hm hx hd hf hr hw hs hc =>
      exact service_callsLater h h' htracked haccurate hnone (other hm) hx hw
        (Machine.starting_eq hs) (runOf_of_isPlain hc)
  | startsInterval j name' debounce f hw hs hc =>
      by_cases hpair : (j, name') = (i, name)
      · cases hpair
        exact service_starts h h' hw hs hnone (runOf_of_isPlain hc)
      · refine service_keeps h h' htracked hw (World.ages_restartBurst _ j name' debounce f).next
          (World.sameBurst_restartBurst _ hpair debounce f)
          (fun _ _ hentry hs => hs.restartBurst haccurate hentry (fun heq => hpair ?_) debounce f)
          hnone ?_ (runOf_of_isPlain hc)
        · cases heq
          rfl
        · rw [Machine.starting_eq hs, filter_starts_of_ne hpair]
          rfl
  | constructs g rest j hg hw hs hs' hc =>
      refine service_keeps h h' htracked hw (Nat.le_refl _) (same fun _ => rfl) (fun _ _ _ hs => hs)
        hnone ?_ (runOf_of_isPlain hc)
      rw [Machine.starting_eq hs, filter_starts_of_construction hg]
      rcases hs' with hs' | ⟨g', hg', hs'⟩
      · exact Machine.starting_eq hs'
      · rw [Machine.starting_eq hs', filter_starts_of_construction hg']
  | schedules j x hx hw hs hc =>
      refine service_keeps h h' htracked hw (World.ages_scheduleHooks _ j x).next
        (World.sameBurst_scheduleHooks _ j x) (fun _ _ _ hs => hs.scheduleHooks j x) hnone ?_
        (runOf_of_isPlain hc)
      rw [Machine.starting_eq hs]
      rfl
  | collects b x worked hx hw hs hc =>
      exact service_keeps h h' htracked hw (Nat.le_refl _) (same fun _ => rfl)
        (fun _ _ _ hs => hs.collectReady hx) hnone ((Machine.starting_eq hs).trans rfl)
        (runOf_of_isPlain hc)
  | skips b id ready worked rest hx hw hs hs' hc =>
      exact service_keeps h h' htracked hw (Nat.le_refl _) (same fun _ => rfl) (fun _ _ _ hs => hs)
        hnone ((Machine.starting_eq hs').trans (Machine.starting_eq hs).symm) (runOf_of_isPlain hc)
  | begins b id ready worked rest x y work hx hb hw hs hs' hc =>
      refine service_begins h h' hsound htracked hnone hx hb ?_ hw hc
        ((Machine.starting_eq hs').trans (Machine.starting_eq hs).symm)
      show id ∈ (marks m.stack).flatMap (·.waiting b)
      rw [hs, List.flatMap_cons]
      simp [Frame.waiting]
  | ends b id mayStay stays hstay hw hs hc =>
      refine service_keeps h h' htracked hw (Nat.le_refl _) (same fun _ => rfl)
        (fun _ _ _ hwaits => hwaits.endRun stays fun hb x hx r hr hid => ?_) hnone ?_
        (runOf_of_isPlain hc)
      · subst hb
        have hrunning := List.mem_map_of_mem (f := (·.1)) (Machine.running_of_sourceEnd hs)
        have hsources := (hsound b).present _ (World.timetable?_eq hx)
        exact (hsources.runs r hr).mpr (hid ▸ hrunning)
      · rw [Machine.starting_eq hs]
        rfl
  | closes b worked hw hs hc =>
      refine service_keeps h h' htracked hw (Nat.le_refl _) (same fun _ => rfl) (fun _ _ _ hs => hs)
        hnone ?_ (runOf_of_isPlain hc)
      rw [Machine.starting_eq hs]
      rfl

end Turns

/-- Every step serves a debounced method in one of these ways. -/
theorem service_step (hreach : Reachable client m) (h : m.Serves c i name d callback t e)
    (h' : (m.step client).Serves c i name d callback t' e')
    (hremove : ∀ id, m.control = .perform (.removeSource c id) →
      (e.burst name).pending ≠ some id) :
    Service m (m.step client) c i name d callback t t' e e' := by
  by_cases hcall : ∃ args, m.control = .perform (.call i name args)
  · obtain ⟨args, hm⟩ := hcall
    exact service_call h h' hm
  · exact service_turn h h' (turn_step client m) hreach.desk hreach.tracked hreach.accurate
      (fun args hm => hcall ⟨args, hm⟩) hremove

end

end ObjectSystem
