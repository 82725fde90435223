import ObjectSystem.Proofs.Timetable

/-!
# The desk of a context

The *desk* of a context is its timetable together with what operations in progress have to do with
its sources: the sources that iterations have collected and not yet run (`waiting`), and those that
run now (`running`).

`Turn.desk` says how a turn changes a desk; no more is needed to reason about sources.
-/

namespace ObjectSystem

variable {σ β κ : Type}

/-- The sources of a context and what is being done with them. -/
structure Desk (β : Type) where
  timetable : Option (Timetable β)
  /-- Collected sources that have not had their turn, those of the innermost iteration first. -/
  waiting : List SourceId
  /-- The sources that run, the innermost first, and whether they may stay. -/
  running : List (SourceId × Bool)

namespace Frame

/-- The sources of a context that an iteration still has to run. -/
def waiting (c : ContextId) : Frame β → List SourceId
  | .iteration d ready _ => if d = c then ready else []
  | _ => []

/-- The source of a context that is to be settled after its work. -/
def running (c : ContextId) : Frame β → List (SourceId × Bool)
  | .sourceEnd d id mayStay => if d = c then [(id, mayStay)] else []
  | _ => []

section Marks

variable (c d : ContextId) (id : SourceId) (ready : List SourceId) (worked mayStay : Bool)

@[simp] theorem waiting_iteration :
    (iteration d ready worked : Frame β).waiting c = if d = c then ready else [] := rfl

@[simp] theorem running_iteration : (iteration d ready worked : Frame β).running c = [] := rfl

@[simp] theorem waiting_sourceEnd : (sourceEnd d id mayStay : Frame β).waiting c = [] := rfl

@[simp] theorem running_sourceEnd : (sourceEnd d id mayStay : Frame β).running c =
    if d = c then [(id, mayStay)] else [] := rfl

end Marks

theorem IsConstruction.waiting {f : Frame β} {i : InstanceId} (h : f.IsConstruction i)
    (c : ContextId) : f.waiting c = [] := by
  cases f <;> first | rfl | cases h

theorem IsConstruction.running {f : Frame β} {i : InstanceId} (h : f.IsConstruction i)
    (c : ContextId) : f.running c = [] := by
  cases f <;> first | rfl | cases h

end Frame

open Machine (marks)

/-- The desk of a context. -/
def Machine.desk (m : Machine σ β κ) (c : ContextId) : Desk β :=
  { timetable := m.world.timetable? c
    waiting := (marks m.stack).flatMap (·.waiting c)
    running := (marks m.stack).flatMap (·.running c) }

/-- What a desk shows of the marks on a stack. -/
theorem Machine.desk_of_marks {m : Machine σ β κ} {ms : List (Frame β)} (hs : marks m.stack = ms)
    (c : ContextId) : (m.desk c).waiting = ms.flatMap (·.waiting c) ∧
      (m.desk c).running = ms.flatMap (·.running c) := by
  subst hs
  exact ⟨rfl, rfl⟩

/-- The source whose end is on top of the marks runs. -/
theorem Machine.running_of_sourceEnd {m : Machine σ β κ} {c : ContextId} {id : SourceId}
    {mayStay : Bool} {rest : List (Frame β)} (hs : marks m.stack = .sourceEnd c id mayStay :: rest) :
    (id, mayStay) ∈ (m.desk c).running := by
  rw [(Machine.desk_of_marks hs c).2, List.flatMap_cons]
  simp

/-! ## Moves on a desk -/

/-- How a turn changes the desk of a context. The clock is set only if it is `ticking`. -/
inductive Desk.Move (ticking : Prop) (d d' : Desk β) : Prop
  /-- Sources are attached and removed. -/
  | edits (ht : Option.Rel Timetable.Edited d.timetable d'.timetable)
      (hw : d'.waiting = d.waiting) (hr : d'.running = d.running)
  /-- A context is created. -/
  | opens (config : Config) (ht : d.timetable = none) (ht' : d'.timetable = some ⟨config, 0, [], 0, {}⟩)
      (hw : d'.waiting = d.waiting) (hr : d'.running = d.running)
  /-- Something is done with sources of a context that does not exist. -/
  | drops (ht : d.timetable = none) (ht' : d'.timetable = none)
      (hw : d'.waiting <:+ d.waiting) (hr : d'.running <:+ d.running)
  /-- The clock is set. -/
  | ticks (t : Timetable β) (now : Nat) (htick : ticking) (ht : d.timetable = some t)
      (ht' : d'.timetable = some { t with now }) (hw : d'.waiting = d.waiting)
      (hr : d'.running = d.running)
  /-- An iteration collects its sources. -/
  | collects (t : Timetable β) (ht : d.timetable = some t) (ht' : d'.timetable = some t.collect)
      (hw : d'.waiting = t.ready ++ d.waiting) (hr : d'.running = d.running)
  /-- A collected source is passed over. -/
  | skips (t : Timetable β) (id : SourceId) (ht : d.timetable = some t)
      (ht' : d'.timetable = some t) (hid : ∀ s, t.source? id = some s → s.running = true)
      (hw : d.waiting = id :: d'.waiting) (hr : d'.running = d.running)
  /-- A collected source starts. -/
  | begins (t : Timetable β) (id : SourceId) (s : Source β) (ht : d.timetable = some t)
      (ht' : d'.timetable = some (t.start id)) (hs : t.source? id = some s)
      (hrun : s.running = false) (hw : d.waiting = id :: d'.waiting)
      (hr : d'.running = (id, s.work.mayStay) :: d.running)
  /-- A source has run. -/
  | ends (t : Timetable β) (id : SourceId) (mayStay stays : Bool)
      (hstay : stays = true → mayStay = true) (ht : d.timetable = some t)
      (ht' : d'.timetable = some (t.settle id stays)) (hw : d'.waiting = d.waiting)
      (hr : d.running = (id, mayStay) :: d'.running)

namespace Desk.Move

/-- Nothing happens on the desk. -/
theorem of_same {ticking : Prop} {d d' : Desk β} (ht : d'.timetable = d.timetable)
    (hw : d'.waiting = d.waiting) (hr : d'.running = d.running) : Move ticking d d' := by
  refine .edits ?_ hw hr
  rw [ht]
  cases d.timetable with
  | none => exact .none
  | some t => exact .some .refl

end Desk.Move

namespace Turn

open World (Steady)

variable {m m' : Machine σ β κ}

/-- The timetables of a world that a steady change leads out of. -/
theorem timetable_eq {w : World β} (hw : Steady w m'.world) (c : ContextId) :
    (m'.desk c).timetable = w.timetable? c :=
  hw.timetable c

/-- A turn that edits timetables, between marks with the same sources. -/
theorem edits_desk {w : World β} (hw : Steady w m'.world) (he : World.Edited m.world w)
    (c : ContextId) (hwait : (m'.desk c).waiting = (m.desk c).waiting)
    (hrun : (m'.desk c).running = (m.desk c).running) :
    Desk.Move (m.Ticking c) (m.desk c) (m'.desk c) := by
  refine .edits ?_ hwait hrun
  rw [timetable_eq hw c]
  exact he c

theorem timetable?_startWork (w : World β) (c : ContextId) (id : SourceId) (work : SourceWork β)
    (d : ContextId) : (w.startWork c id work []).world.timetable? d = w.timetable? d :=
  World.startWork_induction (P := fun v => v.timetable? d = w.timetable? d) w c id work [] rfl
    (fun _ _ _ _ => rfl) fun _ _ _ _ _ _ => rfl

/-! ### Turns one by one -/

variable (c : ContextId)

theorem desk_opens {config : Config} (hw : Steady (m.world.addContext config).1 m'.world)
    (hs : marks m'.stack = marks m.stack) : Desk.Move (m.Ticking c) (m.desk c) (m'.desk c) := by
  obtain ⟨hwait, hrun⟩ := Machine.desk_of_marks hs c
  have ht' := (hw.timetable c).trans (World.timetable?_addContext m.world config c)
  cases ht : m.world.timetable? c with
  | some t =>
      rw [ht] at ht'
      exact .of_same (ht'.trans ht.symm) hwait hrun
  | none =>
      rw [ht, Option.none_or] at ht'
      split at ht'
      · exact .opens config ht ht' hwait hrun
      · exact .of_same (ht'.trans ht.symm) hwait hrun

theorem desk_ticks {d : ContextId} {now : Nat} (hm : m.Ticking d)
    (hw : Steady (m.world.setTime d now) m'.world) (hs : marks m'.stack = marks m.stack) :
    Desk.Move (m.Ticking c) (m.desk c) (m'.desk c) := by
  obtain ⟨hwait, hrun⟩ := Machine.desk_of_marks hs c
  have ht' := (hw.timetable c).trans (World.timetable?_setTime m.world d now c)
  by_cases hd : c = d
  · subst hd
    rw [if_pos rfl] at ht'
    cases ht : m.world.timetable? c with
    | none =>
        rw [ht] at ht'
        exact .of_same (ht'.trans ht.symm) hwait hrun
    | some t =>
        rw [ht] at ht'
        exact .ticks t now hm ht ht' hwait hrun
  · rw [if_neg hd] at ht'
    exact .of_same ht' hwait hrun

theorem desk_collects {d : ContextId} {x : MainContext β} {worked : Bool}
    (hx : m.world.context? d = some x)
    (hw : Steady (m.world.setContext d x.collectReady.1) m'.world)
    (hs : marks m'.stack = .iteration d x.collectReady.2 worked :: marks m.stack) :
    Desk.Move (m.Ticking c) (m.desk c) (m'.desk c) := by
  obtain ⟨hwait, hrun⟩ := Machine.desk_of_marks hs c
  have ht' := (hw.timetable c).trans (World.timetable?_setContext m.world hx)
  rw [List.flatMap_cons] at hwait hrun
  by_cases hd : d = c
  · subst hd
    simp only [Frame.waiting_iteration, Frame.running_iteration, ↓reduceIte] at hwait hrun
    rw [if_pos rfl] at ht'
    exact .collects x.timetable (World.timetable?_eq hx) ht' hwait hrun
  · simp only [Frame.waiting_iteration, Frame.running_iteration, if_neg hd] at hwait hrun
    rw [if_neg (Ne.symm hd)] at ht'
    exact .of_same ht' hwait hrun

theorem desk_skips {d : ContextId} {id : SourceId} {ready : List SourceId} {worked : Bool}
    {rest : List (Frame β)} (hx : (m.world.context? d).bind (·.beginRun id) = none)
    (hw : Steady m.world m'.world)
    (hs : marks m.stack = .iteration d (id :: ready) worked :: rest)
    (hs' : marks m'.stack = .iteration d ready worked :: rest) :
    Desk.Move (m.Ticking c) (m.desk c) (m'.desk c) := by
  obtain ⟨hwait, hrun⟩ := Machine.desk_of_marks hs c
  obtain ⟨hwait', hrun'⟩ := Machine.desk_of_marks hs' c
  rw [List.flatMap_cons] at hwait hrun hwait' hrun'
  by_cases hd : d = c
  · subst hd
    simp only [Frame.waiting_iteration, Frame.running_iteration, ↓reduceIte]
      at hwait hrun hwait' hrun'
    have hnext : (m.desk d).waiting = id :: (m'.desk d).waiting := by
      rw [hwait, hwait']
      rfl
    have hsame : (m'.desk d).running = (m.desk d).running := hrun'.trans hrun.symm
    cases hctx : m.world.context? d with
    | none =>
        have ht := World.timetable?_eq_none.mpr hctx
        exact .drops ht ((hw.timetable d).trans ht) (hnext ▸ List.suffix_cons _ _)
          (hsame ▸ List.suffix_rfl)
    | some x =>
        have ht := World.timetable?_eq hctx
        rw [hctx] at hx
        exact .skips x.timetable id ht ((hw.timetable d).trans ht)
          (MainContext.of_beginRun_none hx) hnext hsame
  · simp only [Frame.waiting_iteration, Frame.running_iteration, if_neg hd]
      at hwait hrun hwait' hrun'
    exact .of_same (hw.timetable c) (hwait'.trans hwait.symm) (hrun'.trans hrun.symm)

theorem desk_begins {d : ContextId} {id : SourceId} {ready : List SourceId} {worked : Bool}
    {rest : List (Frame β)} {x y : MainContext β} {work : SourceWork β}
    (hx : m.world.context? d = some x) (hb : x.beginRun id = some (y, work))
    (hw : Steady ((m.world.setContext d y).startWork d id work []).world m'.world)
    (hs : marks m.stack = .iteration d (id :: ready) worked :: rest)
    (hs' : marks m'.stack = .sourceEnd d id work.mayStay :: .iteration d ready worked :: rest) :
    Desk.Move (m.Ticking c) (m.desk c) (m'.desk c) := by
  obtain ⟨hwait, hrun⟩ := Machine.desk_of_marks hs c
  obtain ⟨hwait', hrun'⟩ := Machine.desk_of_marks hs' c
  rw [List.flatMap_cons] at hwait hrun
  rw [List.flatMap_cons, List.flatMap_cons] at hwait' hrun'
  have ht' := ((hw.timetable c).trans (timetable?_startWork _ _ _ _ c)).trans
    (World.timetable?_setContext m.world hx)
  obtain ⟨s, hsource, hrunning, hwork, hy⟩ := MainContext.of_beginRun hb
  by_cases hd : d = c
  · subst hd
    simp only [Frame.waiting_iteration, Frame.running_iteration, Frame.waiting_sourceEnd,
      Frame.running_sourceEnd, ↓reduceIte] at hwait hrun hwait' hrun'
    rw [if_pos rfl, hy] at ht'
    refine .begins x.timetable id s (World.timetable?_eq hx) ht' hsource hrunning ?_ ?_
    · rw [hwait, hwait']
      rfl
    · rw [hrun, hrun', hwork]
      rfl
  · simp only [Frame.waiting_iteration, Frame.running_iteration, Frame.waiting_sourceEnd,
      Frame.running_sourceEnd, if_neg hd] at hwait hrun hwait' hrun'
    rw [if_neg (Ne.symm hd)] at ht'
    exact .of_same ht' (hwait'.trans hwait.symm) (hrun'.trans hrun.symm)

theorem desk_ends {d : ContextId} {id : SourceId} {mayStay stays : Bool}
    (hstay : stays = true → mayStay = true)
    (hw : Steady (m.world.modifyContext d (·.endRun id stays)) m'.world)
    (hs : marks m.stack = .sourceEnd d id mayStay :: marks m'.stack) :
    Desk.Move (m.Ticking c) (m.desk c) (m'.desk c) := by
  obtain ⟨hwait, hrun⟩ := Machine.desk_of_marks hs c
  rw [List.flatMap_cons] at hwait hrun
  have ht' := (hw.timetable c).trans
    (World.timetable?_modifyContext m.world d (g := (·.settle id stays))
      (fun x => x.timetable_endRun id stays) c)
  by_cases hd : d = c
  · subst hd
    simp only [Frame.waiting_sourceEnd, Frame.running_sourceEnd, ↓reduceIte] at hwait hrun
    rw [if_pos rfl] at ht'
    cases ht : m.world.timetable? d with
    | none =>
        rw [ht] at ht'
        refine .drops ht ht' ?_ ?_
        · exact hwait ▸ List.suffix_rfl
        · exact hrun ▸ List.suffix_cons _ _
    | some t =>
        rw [ht] at ht'
        exact .ends t id mayStay stays hstay ht ht' hwait.symm hrun
  · simp only [Frame.waiting_sourceEnd, Frame.running_sourceEnd, if_neg hd] at hwait hrun
    rw [if_neg (Ne.symm hd)] at ht'
    exact .of_same ht' hwait.symm hrun.symm

/-- A turn moves every desk. -/
theorem desk (h : Turn m m') : Desk.Move (m.Ticking c) (m.desk c) (m'.desk c) := by
  -- marks of constructions and of intervals have no sources
  have still {w : World β} (hw : Steady w m'.world) (ht : w.timetable? c = m.world.timetable? c)
      (hs : (m'.desk c).waiting = (m.desk c).waiting ∧ (m'.desk c).running = (m.desk c).running) :
      Desk.Move (m.Ticking c) (m.desk c) (m'.desk c) :=
    .of_same ((hw.timetable c).trans ht) hs.1 hs.2
  cases h with
  | still hw hs hc => exact still hw rfl (Machine.desk_of_marks hs c)
  | opens config hw hs hc => exact desk_opens c hw hs
  | ticks d now hm hw hs hc => exact desk_ticks c hm hw hs
  | attaches d x kind priority work hx hp hw hs hc =>
      obtain ⟨hwait, hrun⟩ := Machine.desk_of_marks hs c
      refine edits_desk hw (World.edited_setContext hx ?_) c hwait hrun
      exact .attach .refl kind priority work
  | detaches d x id hm hx hw hs hc =>
      obtain ⟨hwait, hrun⟩ := Machine.desk_of_marks hs c
      exact edits_desk hw (World.edited_setContext hx (.detach .refl id)) c hwait hrun
  | creates ofClass d hw hs hc =>
      rcases hs with hs | ⟨g, hg, hs⟩
      · exact still hw rfl (Machine.desk_of_marks hs c)
      · obtain ⟨hwait, hrun⟩ := Machine.desk_of_marks hs c
        rw [List.flatMap_cons, hg.waiting c] at hwait
        rw [List.flatMap_cons, hg.running c] at hrun
        exact still hw rfl ⟨hwait, hrun⟩
  | disposes i hm hw hs hc =>
      obtain ⟨hwait, hrun⟩ := Machine.desk_of_marks hs c
      exact edits_desk hw (World.edited_dispose _ i) c hwait hrun
  | calls i name args x callback hm hx hd hf hw hs hc =>
      exact still hw rfl (Machine.desk_of_marks hs c)
  | callsAtOnce i name args x callback debounce hm hx hd hf hr hw hs hc =>
      exact still hw rfl (Machine.desk_of_marks hs c)
  | callsLater i name args x callback debounce hm hx hd hf hr hw hs hc =>
      obtain ⟨hwait, hrun⟩ := Machine.desk_of_marks hs c
      refine edits_desk hw ?_ c hwait hrun
      exact (World.edited_modifyInstance i _).trans (World.edited_restartBurst _ _ _ _ _)
  | startsInterval i name debounce callback hw hs hc =>
      obtain ⟨hwait, hrun⟩ := Machine.desk_of_marks hs c
      exact edits_desk hw (World.edited_restartBurst _ _ _ _ _) c hwait.symm hrun.symm
  | constructs f rest i hf hw hs hs' hc =>
      obtain ⟨hwait, hrun⟩ := Machine.desk_of_marks hs c
      rw [List.flatMap_cons, hf.waiting c] at hwait
      rw [List.flatMap_cons, hf.running c] at hrun
      rcases hs' with hs' | ⟨g, hg, hs'⟩
      · obtain ⟨hwait', hrun'⟩ := Machine.desk_of_marks hs' c
        exact still hw rfl ⟨hwait'.trans hwait.symm, hrun'.trans hrun.symm⟩
      · obtain ⟨hwait', hrun'⟩ := Machine.desk_of_marks hs' c
        rw [List.flatMap_cons, hg.waiting c] at hwait'
        rw [List.flatMap_cons, hg.running c] at hrun'
        exact still hw rfl ⟨hwait'.trans hwait.symm, hrun'.trans hrun.symm⟩
  | schedules i x hx hw hs hc =>
      obtain ⟨hwait, hrun⟩ := Machine.desk_of_marks hs c
      exact edits_desk hw (World.edited_scheduleHooks _ i x) c hwait.symm hrun.symm
  | collects d x worked hx hw hs hc => exact desk_collects c hx hw hs
  | skips d id ready worked rest hx hw hs hs' hc => exact desk_skips c hx hw hs hs'
  | begins d id ready worked rest x y work hx hb hw hs hs' hc =>
      exact desk_begins c hx hb hw hs hs'
  | ends d id mayStay stays hstay hw hs hc => exact desk_ends c hstay hw hs
  | closes d worked hw hs hc =>
      obtain ⟨hwait, hrun⟩ := Machine.desk_of_marks hs c
      have hnone : (Frame.iteration d [] worked : Frame β).waiting c = [] := by
        simp only [Frame.waiting_iteration, ite_self]
      rw [List.flatMap_cons, hnone] at hwait
      exact still hw rfl ⟨hwait.symm, hrun.symm⟩

end Turn

end ObjectSystem
