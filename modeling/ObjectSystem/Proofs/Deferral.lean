import ObjectSystem.Operation.Construct
import ObjectSystem.Operation.Iterate
import ObjectSystem.Proofs.View

/-!
# Operations on deferred work

Instances are disposed, their ready hooks are attached, the intervals of their bursts are started
anew, and the work of their sources is started. Each of these operations leaves the world as it is or
makes one change. What that change is stands here once, as a principle of induction for each
operation (`dispose_induction`, `scheduleHooks_induction`, `restartBurst_induction`,
`startWork_induction`); whatever the operations keep is proved through these.
-/

namespace ObjectSystem

variable {β : Type}

/-- How long after its attachment a source is due. -/
def SourceKind.delay : SourceKind → Nat
  | .idle => 0
  | .timeout interval => interval

/-- Attaches a source of either kind. -/
def MainContext.attachNow (x : MainContext β) (kind : SourceKind) (priority : Priority)
    (work : SourceWork β) : MainContext β × SourceId :=
  x.attach kind priority (x.now + kind.delay) work

theorem Burst.pending_finish (burst : Burst) (trigger : Trigger) :
    (burst.finish trigger).1.pending = none := by
  unfold Burst.finish
  split <;> rfl

namespace World

variable {w : World β} {i : InstanceId} {x : Instance β}

/-! ## Removing sources -/

theorem modifyContext_of_absent {c : ContextId} (h : w.context? c = none)
    (f : MainContext β → MainContext β) : w.modifyContext c f = w := by
  have hkeys : ∀ entry ∈ w.contexts.entries, entry.1 ≠ c := by
    rintro ⟨d, y⟩ hmem rfl
    have hfound := List.lookup_eq_none_iff.mp h (d, y) hmem
    simp at hfound
  have hentries : (w.contexts.modify c f).entries = w.contexts.entries := by
    refine (List.map_congr_left fun entry hmem => ?_).trans (List.map_id _)
    exact if_neg (hkeys entry hmem)
  show { w with contexts := ⟨(w.contexts.modify c f).entries⟩ } = w
  rw [hentries]

theorem detachSources_of_absent {c : ContextId} (h : w.context? c = none) (ids : List SourceId) :
    w.detachSources c ids = w :=
  modifyContext_of_absent h _

theorem context?_detachSources {c : ContextId} {y : MainContext β} (h : w.context? c = some y)
    (ids : List SourceId) :
    (w.detachSources c ids).context? c = some (ids.foldl MainContext.detach y) := by
  unfold detachSources
  rw [context?_modifyContext, if_pos rfl, h]
  rfl

/-! ## Disposal -/

theorem dispose_eq (hx : w.instance? i = some x) (hd : x.disposed = false) :
    w.dispose i =
      (w.detachSources x.context x.deferredSources).modifyInstance i Instance.dispose := by
  unfold dispose
  rw [hx]
  dsimp only
  rw [hd]
  rfl

theorem dispose_of_disposed (h : ∀ x, w.instance? i = some x → x.disposed = true) :
    w.dispose i = w := by
  unfold dispose
  split
  · rfl
  · next x hx => exact if_pos (h x hx)

/-- An instance that is there and not disposed yet loses its sources and is disposed; of any other
nothing changes. -/
@[elab_as_elim]
theorem dispose_induction {P : World β → Prop} (w : World β) (i : InstanceId) (same : P w)
    (disposes : ∀ x, w.instance? i = some x → x.disposed = false →
      P ((w.detachSources x.context x.deferredSources).modifyInstance i Instance.dispose)) :
    P (w.dispose i) := by
  cases hx : w.instance? i with
  | none =>
    rw [dispose_of_disposed fun x h => by cases hx.symm.trans h]
    exact same
  | some x =>
    cases hd : x.disposed with
    | true =>
      rw [dispose_of_disposed fun y h => by cases hx.symm.trans h; exact hd]
      exact same
    | false =>
      rw [dispose_eq hx hd]
      exact disposes x hx hd

/-! ## Ready hooks -/

theorem scheduleReady_eq {y : MainContext β} (hx : w.instance? i = some x)
    (hy : w.context? x.context = some y) (typeName : String) (hook : ReadyHook β) :
    w.scheduleReady i typeName hook =
      (w.setContext x.context
        (y.attachNow .idle .standard (.ready i typeName hook)).1).modifyInstance i
          (·.trackReady ⟨y.nextSource⟩) := by
  unfold scheduleReady
  rw [hx]
  dsimp only
  rw [hy]
  rfl

/-- An instance without a context attaches nothing. -/
theorem scheduleReady_of_absent (h : ∀ x, w.instance? i = some x → w.context? x.context = none)
    (typeName : String) (hook : ReadyHook β) : w.scheduleReady i typeName hook = w := by
  unfold scheduleReady
  split
  · rfl
  · next x hx => rw [h x hx]

/-- The hook of an instance that is in a context becomes an idle source there, on the record of the
instance. -/
@[elab_as_elim]
theorem scheduleReady_induction {P : World β → Prop} (w : World β) (i : InstanceId)
    (typeName : String) (hook : ReadyHook β) (same : P w)
    (attaches : ∀ x y, w.instance? i = some x → w.context? x.context = some y →
      P ((w.setContext x.context
        (y.attachNow .idle .standard (.ready i typeName hook)).1).modifyInstance i
          (·.trackReady ⟨y.nextSource⟩))) :
    P (w.scheduleReady i typeName hook) := by
  unfold scheduleReady
  split
  · exact same
  · next x hx =>
    split
    · exact same
    · next y hy => exact attaches x y hx hy

/-- What holds of a world and is kept by every ready hook that is attached holds in the end. -/
@[elab_as_elim]
theorem scheduleHooks_induction {P : World β → Prop} (w : World β) (i : InstanceId)
    (x : Instance β) (start : P w)
    (step : ∀ v typeName hook, P v → P (v.scheduleReady i typeName hook)) :
    P (w.scheduleHooks i x) := by
  unfold scheduleHooks
  generalize x.ofClass.rootFirst = levels
  induction levels generalizing w with
  | nil => exact start
  | cons level rest ih =>
    rw [List.foldl_cons]
    split
    · exact ih _ (step w _ _ start)
    · exact ih _ start

/-! ## Bursts -/

theorem restartBurst_eq {y : MainContext β} (hx : w.instance? i = some x)
    (hy : w.context? x.context = some y) (name : String) (debounce : Debounce) (callback : β) :
    w.restartBurst i name debounce callback =
      ((w.detachSources x.context (x.burst name).pending.toList).setContext x.context
        (((x.burst name).pending.toList.foldl MainContext.detach y).attachNow
          (.timeout debounce.interval) .standard
          (.endOfBurst i name debounce.trigger callback)).1).modifyInstance i
        (·.setBurst name { x.burst name with
          pending := some ⟨((x.burst name).pending.toList.foldl MainContext.detach y).nextSource⟩ }) := by
  unfold restartBurst
  rw [hx]
  dsimp only
  rw [context?_detachSources hy]
  rfl

theorem restartBurst_of_absent (h : ∀ x, w.instance? i = some x → w.context? x.context = none)
    (name : String) (debounce : Debounce) (callback : β) :
    w.restartBurst i name debounce callback = w := by
  unfold restartBurst
  split
  · rfl
  · next x hx =>
    dsimp only
    rw [detachSources_of_absent (h x hx), h x hx]

/-- The timer on record of an instance that is in a context is replaced by a new one. -/
@[elab_as_elim]
theorem restartBurst_induction {P : World β → Prop} (w : World β) (i : InstanceId) (name : String)
    (debounce : Debounce) (callback : β) (same : P w)
    (restarts : ∀ x y, w.instance? i = some x →
      (w.detachSources x.context (x.burst name).pending.toList).context? x.context = some y →
      P (((w.detachSources x.context (x.burst name).pending.toList).setContext x.context
        (y.attachNow (.timeout debounce.interval) .standard
          (.endOfBurst i name debounce.trigger callback)).1).modifyInstance i
        (·.setBurst name { x.burst name with pending := some ⟨y.nextSource⟩ }))) :
    P (w.restartBurst i name debounce callback) := by
  cases hx : w.instance? i with
  | none =>
    rw [restartBurst_of_absent fun x h => by cases hx.symm.trans h]
    exact same
  | some x =>
    cases hy : w.context? x.context with
    | none =>
      rw [restartBurst_of_absent fun z h => by cases hx.symm.trans h; exact hy]
      exact same
    | some y =>
      rw [restartBurst_eq hx hy]
      exact restarts x _ hx (context?_detachSources hy _)

/-! ## The work of a source -/

/-- How the work of a source starts. A callback of the program's own is run. The ready hook of an
instance that is still there is run and leaves the record. A burst that is on record ends, and the
call that waits is run. Else nothing happens. -/
@[elab_as_elim]
theorem startWork_cases {P : SourceWork β → Progress β → Prop} (w : World β) (c : ContextId)
    (id : SourceId) (work : SourceWork β) (frames : List (Frame β))
    (repeating : ∀ callback,
      P (.repeating callback) (.invoke w callback { role := .source c id } frames))
    (single : ∀ callback,
      P (.single callback) (.invoke w callback { role := .source c id } frames))
    (gone : ∀ i typeName hook, w.instance? i = none →
      P (.ready i typeName hook) (.proceed w frames))
    (immediate : ∀ i typeName callback, w.isAlive i = true →
      P (.ready i typeName (.immediate callback))
        (.invoke (w.modifyInstance i (·.untrackReady id)) callback
          { role := .ready typeName, self := some i } (.readyEnd typeName :: frames)))
    (deferred : ∀ i typeName callback, w.isAlive i = true →
      P (.ready i typeName (.deferred callback))
        (.invoke (w.modifyInstance i (·.untrackReady id)) callback
          { role := .readyTask typeName, self := some i }
          (.readySpawn c ⟨i, typeName⟩ :: frames)))
    (unrecorded : ∀ i name trigger callback,
      (∀ x, w.instance? i = some x → x.bursts.find? name = none) →
      P (.endOfBurst i name trigger callback) (.proceed w frames))
    (ends : ∀ i name trigger callback x burst, w.instance? i = some x →
      x.bursts.find? name = some burst → (burst.finish trigger).2 = none →
      P (.endOfBurst i name trigger callback)
        (.proceed (w.modifyInstance i (·.setBurst name (burst.finish trigger).1)) frames))
    (runs : ∀ i name trigger callback x burst args, w.instance? i = some x →
      x.bursts.find? name = some burst → (burst.finish trigger).2 = some args →
      P (.endOfBurst i name trigger callback)
        (.invoke (w.modifyInstance i (·.setBurst name (burst.finish trigger).1)) callback
          { role := .method name, self := some i, args } frames)) :
    P work (w.startWork c id work frames) := by
  cases work with
  | repeating callback => exact repeating callback
  | single callback => exact single callback
  | ready i typeName hook =>
    unfold startWork startReady
    dsimp only
    split
    · next halive =>
      cases hook with
      | immediate callback => exact immediate i typeName callback halive
      | deferred callback => exact deferred i typeName callback halive
    · next hdead =>
      exact gone i typeName hook (Option.not_isSome_iff_eq_none.mp hdead)
  | endOfBurst i name trigger callback =>
    unfold startWork endBurst
    dsimp only
    split
    · next hx => exact unrecorded i name trigger callback fun x h => by cases hx.symm.trans h
    · next x hx =>
      split
      · next hburst =>
        exact unrecorded i name trigger callback fun y h => by cases hx.symm.trans h; exact hburst
      · next burst hburst =>
        split
        · next hargs => exact ends i name trigger callback x burst hx hburst hargs
        · next args hargs => exact runs i name trigger callback x burst args hx hburst hargs

/-- What the start of the work of a source does to the world. -/
@[elab_as_elim]
theorem startWork_induction {P : World β → Prop} (w : World β) (c : ContextId) (id : SourceId)
    (work : SourceWork β) (frames : List (Frame β)) (same : P w)
    (untracks : ∀ i typeName hook, work = .ready i typeName hook →
      P (w.modifyInstance i (·.untrackReady id)))
    (finishes : ∀ i name trigger callback (burst : Burst), work = .endOfBurst i name trigger callback →
      P (w.modifyInstance i (·.setBurst name (burst.finish trigger).1))) :
    P (w.startWork c id work frames).world := by
  refine startWork_cases (P := fun work' p => work = work' → P p.world) w c id work frames
    ?_ ?_ ?_ ?_ ?_ ?_ ?_ ?_ rfl
  · exact fun _ _ => same
  · exact fun _ _ => same
  · exact fun _ _ _ _ _ => same
  · exact fun i typeName callback _ hwork => untracks i typeName _ hwork
  · exact fun i typeName callback _ hwork => untracks i typeName _ hwork
  · exact fun _ _ _ _ _ _ => same
  · exact fun i name trigger callback _ burst _ _ _ hwork =>
      finishes i name trigger callback burst hwork
  · exact fun i name trigger callback _ burst _ _ _ _ hwork =>
      finishes i name trigger callback burst hwork

/-- The end of a burst that is on record. -/
theorem startWork_endOfBurst {name : String} {burst : Burst} (hx : w.instance? i = some x)
    (hburst : x.bursts.find? name = some burst) (c : ContextId) (id : SourceId) (trigger : Trigger)
    (callback : β) (frames : List (Frame β)) :
    w.startWork c id (.endOfBurst i name trigger callback) frames =
      match (burst.finish trigger).2 with
      | none => .proceed (w.modifyInstance i (·.setBurst name (burst.finish trigger).1)) frames
      | some args => .invoke (w.modifyInstance i (·.setBurst name (burst.finish trigger).1)) callback
          { role := .method name, self := some i, args } frames := by
  cases hargs : (burst.finish trigger).2 with
  | none => simp [startWork, endBurst, hx, hburst, hargs]
  | some args => simp [startWork, endBurst, hx, hburst, hargs]

/-- How the work of a source starts does not depend on the frames that wait for it. -/
theorem startWork_append (w : World β) (c : ContextId) (id : SourceId) (work : SourceWork β)
    (frames : List (Frame β)) :
    (w.startWork c id work frames).world = (w.startWork c id work []).world ∧
      (w.startWork c id work frames).control = (w.startWork c id work []).control ∧
      (w.startWork c id work frames).frames = (w.startWork c id work []).frames ++ frames := by
  cases work with
  | repeating | single => exact ⟨rfl, rfl, rfl⟩
  | ready i typeName hook =>
    unfold startWork startReady
    dsimp only
    split
    · cases hook <;> exact ⟨rfl, rfl, rfl⟩
    · exact ⟨rfl, rfl, rfl⟩
  | endOfBurst i name trigger callback =>
    unfold startWork endBurst
    dsimp only
    split
    · exact ⟨rfl, rfl, rfl⟩
    · split
      · exact ⟨rfl, rfl, rfl⟩
      · split <;> exact ⟨rfl, rfl, rfl⟩

end World

end ObjectSystem
