import ObjectSystem.Proofs.ConstructOnly
import ObjectSystem.Proofs.Preparing
import ObjectSystem.Proofs.Teardown

/-!
# Who attaches ready hooks

A source whose work is a ready hook of an instance is attached by one operation only, the
construction of that instance, and by that one in its last move: in every other turn the ready
hooks of an instance that are attached were attached before (`Turn.readies`). The last move attaches
one idle source at standard priority for each level of the class that has a ready hook, the root
first, all of them to the context of the instance (`Machine.readied_initializing`).
-/

namespace ObjectSystem

variable {σ β κ : Type}

open Machine (marks Reachable)

/-! ## Ready hooks -/

/-- The ready hooks of a class with the types that declare them, the root's first. -/
def Class.readyHooks (c : Class β) : List (String × ReadyHook β) :=
  c.rootFirst.filterMap fun level => level.ready.map (level.typeName, ·)

/-- Whether a piece of work is a ready hook of an instance. -/
def SourceWork.readies (i : InstanceId) : SourceWork β → Bool
  | .ready j _ _ => j = i
  | _ => false

theorem SourceWork.owner?_of_readies {work : SourceWork β} {i : InstanceId}
    (h : work.readies i = true) : work.owner? = some i := by
  cases work with
  | ready j typeName hook => exact congrArg some (of_decide_eq_true h)
  | _ => cases h

/-- The sources that run ready hooks of an instance, of those attached from a number on. -/
def Timetable.readied (t : Timetable β) (i : InstanceId) (first : Nat) : List (Source β) :=
  t.sources.filter fun s => first ≤ s.id.number && s.work.readies i

/-- The sources that run ready hooks of an instance and that the next step attaches to a context. -/
def Machine.readied (client : Client σ β κ) (m : Machine σ β κ) (i : InstanceId) (c : ContextId) :
    List (Source β) :=
  ((m.step client).world.timetable? c).elim []
    (·.readied i ((m.world.timetable? c).elim 0 (·.nextSource)))

/-! ## Other turns -/

namespace World

variable {u v w : World β} {i : InstanceId}

/-- The ready hooks of an instance that are attached were attached before. -/
def ReadiesNone (i : InstanceId) (w v : World β) : Prop :=
  ∀ c t', v.timetable? c = some t' → ∀ s' ∈ t'.sources, s'.work.readies i = true →
    ∃ t, w.timetable? c = some t ∧ ∃ s ∈ t.sources, s'.id = s.id ∧ s'.work = s.work

theorem Inherits.readiesNone (h : Inherits i w v) : ReadiesNone i w v := by
  intro c t' ht' s' hs' hready
  obtain ⟨t, ht, s, hs, hid, hwork, -⟩ := h c t' ht' s' hs' (SourceWork.owner?_of_readies hready)
  exact ⟨t, ht, s, hs, hid, hwork⟩

theorem ReadiesNone.trans (h : ReadiesNone i u v) (g : ReadiesNone i v w) : ReadiesNone i u w := by
  intro c t'' ht'' s'' hs'' hready
  obtain ⟨t', ht', s', hs', hid', hwork'⟩ := g c t'' ht'' s'' hs'' hready
  obtain ⟨t, ht, s, hs, hid, hwork⟩ := h c t' ht' s' hs' (hwork' ▸ hready)
  exact ⟨t, ht, s, hs, hid'.trans hid, hwork'.trans hwork⟩

theorem Steady.readiesNone (h : Steady w v) : ReadiesNone i w v :=
  Inherits.readiesNone (inherits_of_eq h.timetable)

/-- A source that runs no ready hook is attached. -/
theorem readiesNone_attachNow {c : ContextId} {x : MainContext β} (hx : w.context? c = some x)
    (kind : SourceKind) (priority : Priority) {work : SourceWork β}
    (hwork : work.readies i = false) :
    ReadiesNone i w (w.setContext c (x.attachNow kind priority work).1) := by
  intro d t' ht' s hs hready
  rcases mem_attachNow hx ht' hs with ⟨t, ht, hmem⟩ | ⟨-, rfl⟩
  · exact ⟨t, ht, s, hmem, rfl, rfl⟩
  · cases hwork.symm.trans hready

/-- The timer of a burst runs no ready hook. -/
theorem readiesNone_restartBurst (j : InstanceId) (name : String) (debounce : Debounce)
    (callback : β) : ReadiesNone i w (w.restartBurst j name debounce callback) := by
  refine restartBurst_induction w j name debounce callback (Steady.refl w).readiesNone
    fun x y hx hy => ?_
  have hdetach : Inherits i w (w.detachSources x.context (x.burst name).pending.toList) :=
    inherits_detachSources _ _
  exact hdetach.readiesNone.trans
    (readiesNone_attachNow hy (.timeout debounce.interval) .standard rfl)

end World

open World (ReadiesNone Steady)

/-- **Ready hooks are attached by the construction of their instance only.** -/
theorem Turn.readies {m m' : Machine σ β κ} (h : Turn m m') (hsound : ∀ c, (m.desk c).Sound)
    (i : InstanceId) :
    ReadiesNone i m.world m'.world ∨ marks m.stack = .initializing i [] :: marks m'.stack := by
  cases h with
  | opens config hw hs hc =>
    exact .inl ((World.inherits_addContext config).readiesNone.trans hw.readiesNone)
  | ticks c now hm hw hs hc =>
    exact .inl ((World.inherits_setTime c now).readiesNone.trans hw.readiesNone)
  | attaches c x kind priority work hx hp hw hs hc =>
    have hwork : work.readies i = false := by
      cases work with
      | repeating callback => rfl
      | single callback => rfl
      | _ => cases hp
    exact .inl ((World.readiesNone_attachNow hx kind priority hwork).trans hw.readiesNone)
  | detaches c x id hm hx hw hs hc =>
    exact .inl ((World.inherits_detach hx id).readiesNone.trans hw.readiesNone)
  | creates ofClass c hw hs hc =>
    have hadd : World.Inherits i m.world (m.world.addInstance ofClass c).1 :=
      World.inherits_of_eq fun _ => rfl
    exact .inl (hadd.readiesNone.trans hw.readiesNone)
  | disposes j hm hw hs hc =>
    exact .inl ((World.inherits_dispose m.world j i).readiesNone.trans hw.readiesNone)
  | callsAtOnce j name args x callback debounce hm hx hd hf hr hw hs hc =>
    have hrecord : World.Inherits i m.world (m.world.modifyInstance j
        (·.setBurst name ((x.burst name).record debounce.trigger args))) :=
      World.inherits_of_eq fun _ => rfl
    exact .inl (hrecord.readiesNone.trans hw.readiesNone)
  | callsLater j name args x callback debounce hm hx hd hf hr hw hs hc =>
    have hrecord : World.Inherits i m.world (m.world.modifyInstance j
        (·.setBurst name ((x.burst name).record debounce.trigger args))) :=
      World.inherits_of_eq fun _ => rfl
    exact .inl ((hrecord.readiesNone.trans (World.readiesNone_restartBurst j name debounce
      callback)).trans hw.readiesNone)
  | startsInterval j name debounce callback hw hs hc =>
    exact .inl ((World.readiesNone_restartBurst j name debounce callback).trans hw.readiesNone)
  | schedules j x hx hw hs hc =>
    by_cases hij : i = j
    · exact .inr (hij ▸ hs)
    · exact .inl ((World.inherits_scheduleHooks hij m.world x).readiesNone.trans hw.readiesNone)
  | collects c x worked hx hw hs hc =>
    exact .inl ((World.inherits_collectReady hx).readiesNone.trans hw.readiesNone)
  | begins c id ready worked rest x y work hx hb hw hs hs' hc =>
    exact .inl ((World.inherits_startWork hx hb i).readiesNone.trans hw.readiesNone)
  | ends c id mayStay stays hstay hw hs hc =>
    -- what has run and stays is the program's own
    have hends := Machine.inherits_sourceEnd (hsound c) hs hstay i
    exact .inl (hends.readiesNone.trans hw.readiesNone)
  | still hw hs hc | calls j name args x callback hm hx hd hf hw hs hc
  | constructs f rest j hf hw hs hs' hc | skips c id ready worked rest hx hw hs hs' hc
  | closes c worked hw hs hc => exact .inl hw.readiesNone

/-- A step that does not find a construction at its end on top attaches no ready hooks of the
instance. -/
theorem Machine.readied_eq_nil {client : Client σ β κ} {m : Machine σ β κ}
    (hreach : Reachable client m) {i : InstanceId}
    (hlast : ∀ reply below, m.control = .deliver reply →
      m.stack ≠ .operation (.initializing i []) :: below) (c : ContextId) :
    m.readied client i c = [] := by
  unfold Machine.readied
  cases ht' : (m.step client).world.timetable? c with
  | none => rfl
  | some t' =>
    refine List.filter_eq_nil_iff.mpr fun s' hs' hnew => ?_
    obtain ⟨hfirst, hready⟩ := Bool.and_eq_true_iff.mp hnew
    rcases (turn_step client m).readies (fun c => hreach.desk c) i with hnone | hmarks
    · obtain ⟨t, ht, s, hs, hid, -⟩ := hnone c t' ht' s' hs' hready
      have hlt : s.id.number < t.nextSource := ((hreach.desk c).present t ht).fresh s hs
      rw [ht, hid] at hfirst
      exact absurd (of_decide_eq_true hfirst) (Nat.not_le_of_lt hlt)
    · obtain ⟨reply, below, hm, hs⟩ := Machine.top_of_marks client hmarks
      exact hlast reply below hm hs

/-! ## The last move of a construction -/

namespace Timetable

variable {t : Timetable β} {i : InstanceId} {first : Nat}

/-- What is attached one after the other. -/
def attachReady (t : Timetable β) (i : InstanceId) (hooks : List (String × ReadyHook β)) :
    Timetable β :=
  hooks.foldl (fun u hook => u.attach .idle .standard (.ready i hook.1 hook.2)) t

theorem readied_attachReady (hfirst : first ≤ t.nextSource) (hooks : List (String × ReadyHook β)) :
    ((t.attachReady i hooks).readied i first).map (fun s => (s.kind, s.priority, s.work)) =
      (t.readied i first).map (fun s => (s.kind, s.priority, s.work))
        ++ hooks.map fun hook => (.idle, .standard, .ready i hook.1 hook.2) := by
  induction hooks generalizing t with
  | nil => exact (List.append_nil _).symm
  | cons hook hooks ih =>
    have hnew : (t.attach .idle .standard (.ready i hook.1 hook.2)).readied i first =
        t.readied i first ++ [t.fresh .idle .standard (.ready i hook.1 hook.2)] := by
      unfold readied attach
      rw [List.filter_append, List.filter_cons_of_pos]
      · rfl
      · exact Bool.and_eq_true_iff.mpr ⟨decide_eq_true hfirst, decide_eq_true rfl⟩
    rw [attachReady, List.foldl_cons]
    refine (ih (Nat.le_succ_of_le hfirst)).trans ?_
    rw [hnew, List.map_append, List.append_assoc]
    rfl

/-- No source has a number that was not given yet. -/
theorem Sound.readied_nextSource {waiting : List SourceId} {running : List (SourceId × Bool)}
    (h : t.Sound waiting running) (i : InstanceId) : t.readied i t.nextSource = [] := by
  refine List.filter_eq_nil_iff.mpr fun s hs hnew => ?_
  obtain ⟨hfirst, -⟩ := Bool.and_eq_true_iff.mp hnew
  exact absurd (of_decide_eq_true hfirst) (Nat.not_le_of_lt (h.fresh s hs))

end Timetable

namespace World

variable {w : World β} {i : InstanceId} {ofClass : Class β} {context : ContextId}

theorem scheduleHooks_eq (w : World β) (i : InstanceId) (x : Instance β) :
    w.scheduleHooks i x =
      x.ofClass.readyHooks.foldl (fun v hook => v.scheduleReady i hook.1 hook.2) w := by
  unfold scheduleHooks Class.readyHooks
  rw [List.foldl_filterMap]
  refine congrArg (List.foldl · w _) (funext₂ fun v level => ?_)
  cases level.ready <;> rfl

/-- Ready hooks are attached to the context of their instance. -/
theorem timetable?_scheduleAll (hhouses : w.Houses i ofClass context) {t : Timetable β}
    (ht : w.timetable? context = some t) (hooks : List (String × ReadyHook β)) (c : ContextId) :
    (hooks.foldl (fun v hook => v.scheduleReady i hook.1 hook.2) w).timetable? c =
      if c = context then some (t.attachReady i hooks) else w.timetable? c := by
  induction hooks generalizing w t with
  | nil =>
    split
    · next hc => rw [hc]; exact ht
    · rfl
  | cons hook hooks ih =>
    obtain ⟨x, hx, hclass, rfl⟩ := hhouses
    obtain ⟨y, hy, rfl⟩ := Option.map_eq_some_iff.mp ht
    have hready := scheduleReady_eq hx hy hook.1 hook.2
    have htimetable (d : ContextId) : (w.scheduleReady i hook.1 hook.2).timetable? d =
        if d = x.context then some (y.timetable.attach .idle .standard (.ready i hook.1 hook.2))
        else w.timetable? d := by
      rw [hready]
      exact timetable?_setContext w hy
    have hkept : (w.scheduleReady i hook.1 hook.2).Houses i ofClass x.context := by
      refine ⟨x.trackReady ⟨y.nextSource⟩, ?_, hclass, rfl⟩
      rw [hready, instance?_modifyInstance, if_pos rfl]
      show (w.instance? i).map _ = _
      rw [hx]
      rfl
    have hthere := htimetable x.context
    rw [if_pos rfl] at hthere
    rw [List.foldl_cons, ih hkept hthere, htimetable]
    split <;> rfl

end World

/-- **The last move of a construction attaches the ready hooks of the class**, the root's first: one
idle source at standard priority for each level that has one. -/
theorem Machine.readied_initializing {client : Client σ β κ} {m : Machine σ β κ}
    (hreach : Reachable client m) {i : InstanceId} {ofClass : Class β} {context : ContextId}
    (hhouses : m.world.Houses i ofClass context) (hcontext : m.world.timetable? context ≠ none)
    {reply : Reply β} {base : List (Layer β κ)} (hm : m.control = .deliver reply)
    (hs : m.stack = .operation (.initializing i []) :: base) :
    (∀ c, (m.readied client i c).map (fun s => (s.kind, s.priority, s.work)) =
      if c = context then
        ofClass.readyHooks.map fun hook => (.idle, .standard, .ready i hook.1 hook.2)
      else []) ∧
      (m.step client).stack = base ∧ (m.step client).control = .deliver (.object i) := by
  have hf : (m.step client).Follows (m.world.continueInitializing i []) base :=
    follows_resume client hm hs
  obtain ⟨x, hx, hclass, hin⟩ := hhouses
  obtain ⟨t, ht⟩ := Option.ne_none_iff_exists'.mp hcontext
  unfold World.continueInitializing at hf
  rw [hx] at hf
  dsimp only at hf
  refine ⟨fun c => ?_, hf.stack, hf.control⟩
  have hafter : (m.step client).world.timetable? c =
      if c = context then some (t.attachReady i ofClass.readyHooks)
      else m.world.timetable? c := by
    rw [hf.world.timetable]
    show (m.world.scheduleHooks i x).timetable? c = _
    rw [World.scheduleHooks_eq, hclass]
    exact World.timetable?_scheduleAll ⟨x, hx, hclass, hin⟩ ht _ c
  unfold Machine.readied
  rw [hafter]
  split
  · next hc =>
    rw [hc, ht]
    refine (Timetable.readied_attachReady (Nat.le_refl _) _).trans ?_
    rw [((hreach.desk context).present t ht).readied_nextSource, List.map_nil, List.nil_append]
  · cases hold : m.world.timetable? c with
    | none => rfl
    | some u =>
      show List.map _ (u.readied i u.nextSource) = []
      rw [((hreach.desk c).present u hold).readied_nextSource, List.map_nil]

end ObjectSystem
