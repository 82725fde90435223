import ObjectSystem.Proofs.Turn

/-!
# Timetables

What a context does to its sources, it does to its timetable. A timetable is *edited* when sources
are attached and removed while none of them runs or is collected; whole operations are edits of that
kind (`edited_dispose`, `edited_scheduleHooks`, `edited_restartBurst`).
-/

namespace ObjectSystem

variable {β : Type}

/-! ## Changes of a timetable -/

namespace Timetable

variable (t : Timetable β)

/-- The attached source of an identity. -/
def source? (id : SourceId) : Option (Source β) :=
  t.sources.find? (·.id = id)

/-- The next source to be attached. -/
def fresh (kind : SourceKind) (priority : Priority) (work : SourceWork β) : Source β :=
  { id := ⟨t.nextSource⟩, kind, priority, readyAt := t.now + kind.delay, work }

def attach (kind : SourceKind) (priority : Priority) (work : SourceWork β) : Timetable β :=
  { t with
    sources := t.sources ++ [t.fresh kind priority work]
    nextSource := t.nextSource + 1
    queue := t.queue.enter (t.fresh kind priority work) }

def detach (id : SourceId) : Timetable β :=
  { t with sources := t.sources.filter (·.id ≠ id) }

def modify (id : SourceId) (f : Source β → Source β) : Timetable β :=
  { t with sources := t.sources.map fun s => if s.id = id then f s else s }

/-- The timeout that an entry of the queue stands for, if it may run. -/
def timeout? (e : TimeoutEntry) : Option (Source β) :=
  (t.source? e.id).filter fun s => s.readyAt = e.readyAt && !s.running

/-- What an iteration that begins now runs, in order. -/
def ready : List SourceId :=
  (((t.queue.due t.now).filterMap t.timeout? ++ t.sources.filter (·.isReadyIdle)).mergeSort
    Source.runsBefore).map (·.id)

/-- The due timeouts leave the queue. -/
def collect : Timetable β :=
  { t with queue := t.queue.afterDue t.now }

/-- A source starts. -/
def start (id : SourceId) : Timetable β :=
  t.modify id fun s => { s with running := true }

/-- A source has run and stays, or does not. -/
def settle (id : SourceId) (stays : Bool) : Timetable β :=
  if stays then
    { t.modify id (MainContext.rearm t.now) with
      queue := match t.source? id with
        | none => t.queue
        | some s => t.queue.enter (MainContext.rearm t.now s) }
  else t.detach id

theorem now_settle (id : SourceId) (stays : Bool) : (t.settle id stays).now = t.now := by
  unfold settle
  split <;> rfl

theorem config_settle (id : SourceId) (stays : Bool) : (t.settle id stays).config = t.config := by
  unfold settle
  split <;> rfl

/-- Sources were attached and removed, one after the other. -/
inductive Edited (t : Timetable β) : Timetable β → Prop
  | refl : Edited t t
  | attach {u : Timetable β} (h : Edited t u) (kind : SourceKind) (priority : Priority)
      (work : SourceWork β) : Edited t (u.attach kind priority work)
  | detach {u : Timetable β} (h : Edited t u) (id : SourceId) : Edited t (u.detach id)

theorem Edited.trans {t u v : Timetable β} (h : Edited t u) (g : Edited u v) : Edited t v := by
  induction g with
  | refl => exact h
  | attach _ kind priority work ih => exact .attach ih kind priority work
  | detach _ id ih => exact .detach ih id

theorem Edited.now {t u : Timetable β} (h : Edited t u) : u.now = t.now := by
  induction h with
  | refl => rfl
  | attach _ _ _ _ ih => exact ih
  | detach _ _ ih => exact ih

theorem Edited.config {t u : Timetable β} (h : Edited t u) : u.config = t.config := by
  induction h with
  | refl => rfl
  | attach _ _ _ _ ih => exact ih
  | detach _ _ ih => exact ih

theorem nextSource_foldl_detach (ids : List SourceId) :
    (ids.foldl detach t).nextSource = t.nextSource := by
  induction ids generalizing t with
  | nil => rfl
  | cons id rest ih => exact ih (t.detach id)

theorem edited_foldl_detach (ids : List SourceId) : Edited t (ids.foldl detach t) := by
  induction ids generalizing t with
  | nil => exact .refl
  | cons id rest ih => exact (Edited.detach .refl id).trans (ih _)

end Timetable

/-! ## Contexts show them -/

namespace MainContext

variable (x : MainContext β)

theorem timetable_attachNow (kind : SourceKind) (priority : Priority) (work : SourceWork β) :
    (x.attachNow kind priority work).1.timetable = x.timetable.attach kind priority work := rfl

theorem ready_collectReady : x.collectReady.2 = x.timetable.ready := rfl

theorem timetable_endRun (id : SourceId) (stays : Bool) :
    (x.endRun id stays).timetable = x.timetable.settle id stays := by
  unfold endRun Timetable.settle
  split <;> rfl

theorem timetable_foldl_detach (ids : List SourceId) :
    (ids.foldl detach x).timetable = ids.foldl Timetable.detach x.timetable := by
  induction ids generalizing x with
  | nil => rfl
  | cons id rest ih => exact ih (x.detach id)

/-- A source that starts is attached and does not run. -/
theorem of_beginRun {x y : MainContext β} {id : SourceId} {work : SourceWork β}
    (h : x.beginRun id = some (y, work)) :
    ∃ s, x.timetable.source? id = some s ∧ s.running = false ∧ s.work = work ∧
      y.timetable = x.timetable.start id := by
  unfold beginRun at h
  split at h
  · cases h
  · next s hs =>
      split at h
      · cases h
      · next hrunning =>
          cases h
          exact ⟨s, hs, by simpa using hrunning, rfl, rfl⟩

/-- A source that does not start is gone or runs. -/
theorem of_beginRun_none {x : MainContext β} {id : SourceId} (h : x.beginRun id = none) :
    ∀ s, x.timetable.source? id = some s → s.running = true := by
  intro s hs
  unfold beginRun at h
  have hfound : x.source? id = some s := hs
  rw [hfound] at h
  dsimp only at h
  split at h
  · assumption
  · cases h

end MainContext

/-! ## Worlds -/

namespace World

theorem timetable?_setTime (w : World β) (c : ContextId) (now : Nat) (d : ContextId) :
    (w.setTime c now).timetable? d =
      if d = c then (w.timetable? d).map ({ · with now }) else w.timetable? d :=
  timetable?_modifyContext w c (fun _ => rfl) d

/-- Every timetable was edited. -/
def Edited (w v : World β) : Prop :=
  ∀ c, Option.Rel Timetable.Edited (w.timetable? c) (v.timetable? c)

section Edited
variable {u v w : World β}

theorem edited_of_eq (h : ∀ c, v.timetable? c = w.timetable? c) : Edited w v := by
  intro c
  rw [h c]
  cases w.timetable? c with
  | none => exact .none
  | some t => exact .some .refl

theorem Steady.edited (h : Steady w v) : Edited w v :=
  edited_of_eq h.timetable

theorem Edited.trans (h : Edited u v) (g : Edited v w) : Edited u w := by
  intro c
  have hc := h c
  have gc := g c
  revert hc gc
  generalize u.timetable? c = t
  generalize v.timetable? c = t'
  generalize w.timetable? c = t''
  rintro (hc | _) (gc | _)
  · exact .some (hc.trans gc)
  · exact .none

theorem edited_setContext {c : ContextId} {x y : MainContext β} (hx : w.context? c = some x)
    (h : x.timetable.Edited y.timetable) : Edited w (w.setContext c y) := by
  intro d
  rw [timetable?_setContext w hx]
  split
  · next hd =>
      rw [hd, timetable?, hx]
      exact .some h
  · exact edited_of_eq (fun _ => rfl) d

theorem edited_modifyContext (c : ContextId) {f : MainContext β → MainContext β}
    (hf : ∀ x : MainContext β, x.timetable.Edited (f x).timetable) : Edited w (w.modifyContext c f) := by
  intro d
  unfold timetable?
  rw [context?_modifyContext]
  split
  · cases w.context? d with
    | none => exact .none
    | some x => exact .some (hf x)
  · exact edited_of_eq (w := w) (fun _ => rfl) d

theorem edited_modifyInstance (i : InstanceId) (f : Instance β → Instance β) :
    Edited w (w.modifyInstance i f) :=
  edited_of_eq fun _ => rfl

theorem edited_detachSources (w : World β) (c : ContextId) (ids : List SourceId) :
    Edited w (w.detachSources c ids) := by
  refine edited_modifyContext c fun x => ?_
  rw [MainContext.timetable_foldl_detach]
  exact Timetable.edited_foldl_detach _ ids

theorem edited_dispose (w : World β) (i : InstanceId) : Edited w (w.dispose i) := by
  refine dispose_induction w i (Steady.refl w).edited fun x _ _ => ?_
  exact (edited_detachSources w _ _).trans (edited_modifyInstance _ _)

theorem edited_scheduleReady (w : World β) (i : InstanceId) (typeName : String)
    (hook : ReadyHook β) : Edited w (w.scheduleReady i typeName hook) := by
  refine scheduleReady_induction w i typeName hook (Steady.refl w).edited fun x y _ hy => ?_
  refine (edited_setContext hy ?_).trans (edited_modifyInstance _ _)
  exact .attach .refl .idle .standard _

theorem edited_scheduleHooks (w : World β) (i : InstanceId) (x : Instance β) :
    Edited w (w.scheduleHooks i x) :=
  scheduleHooks_induction w i x (edited_of_eq fun _ => rfl)
    fun v typeName hook hv => hv.trans (edited_scheduleReady v i typeName hook)

theorem edited_restartBurst (w : World β) (i : InstanceId) (method : String) (debounce : Debounce)
    (callback : β) : Edited w (w.restartBurst i method debounce callback) := by
  refine restartBurst_induction w i method debounce callback (Steady.refl w).edited
    fun x y _ hy => ?_
  have hdetach := edited_detachSources w x.context (x.burst method).pending.toList
  refine (hdetach.trans (edited_setContext hy ?_)).trans (edited_modifyInstance _ _)
  exact .attach .refl (.timeout debounce.interval) .standard _

end Edited

end World

end ObjectSystem
