import ObjectSystem.Proofs.Holding
import ObjectSystem.Proofs.Readying
import ObjectSystem.Proofs.Snapshot
import ObjectSystem.Proofs.Upkeep

/-!
# Ready hooks start once

The construction of an instance attaches one source for each level of its class that declares a
ready hook, and nothing else attaches one. A ready hook starts as its source does, which happens once
at most and while the instance is alive (`Machine.begins_of_readying`). So the ready hooks of an
instance that have started, in order, are some of those that its class declares, each once
(`Machine.Reachable.readyStarts_subperm`): the invariant is a roll of the sources that have been
attached, on which those that have started are ticked off (`Machine.Enrolled`).

Until it starts, a ready hook stays on the record of its instance unless that is disposed
(`Machine.Reachable.retains`). An iteration therefore has started all ready hooks that were on record when it
collected its sources (`Machine.Reachable.starts_of_pending`), whatever any of them did.
-/

namespace ObjectSystem

variable {σ β κ : Type}

open Machine (marks Reachable sites)

/-! ## Starts -/

/-- The ready hook that a callback in this role is, with the type that declares it. -/
def Role.hook? (callback : β) : Role → Option (String × ReadyHook β)
  | .ready typeName => some (typeName, .immediate callback)
  | .readyTask typeName => some (typeName, .deferred callback)
  | _ => none

/-- The ready hook of an instance that is about to start. -/
def Control.readying? (i : InstanceId) : Control β → Option (String × ReadyHook β)
  | .invoke callback inv => if inv.self = some i then inv.role.hook? callback else none
  | _ => none

/-- The ready hooks of an instance that start within so many moments, in order. -/
def Machine.readyStarts (client : Client σ β κ) (m : Machine σ β κ) (i : InstanceId) (n : Nat) :
    List (String × ReadyHook β) :=
  Machine.log client (·.control.readying? i) m n

theorem Control.readying?_of_role {callback : β} {inv : Invocation}
    (h : inv.role.hook? callback = none) (i : InstanceId) :
    (Control.invoke callback inv).readying? i = none := by
  show (if inv.self = some i then inv.role.hook? callback else none) = none
  rw [h, ite_self]

theorem Control.readying?_of_isPlain {c : Control β} (h : c.isPlain = true) (i : InstanceId) :
    c.readying? i = none := by
  cases c with
  | invoke callback inv =>
    refine readying?_of_role ?_ i
    have hrole : inv.role.isDeferred = false := by simpa [isPlain] using h
    generalize inv.role = role at hrole
    cases role <;> first | rfl | cases hrole
  | _ => rfl

/-- What starts a ready hook of an instance is the work to do so. -/
theorem World.readying?_startWork {w : World β} {c : ContextId} {id : SourceId}
    {work : SourceWork β} {i : InstanceId} {hook : String × ReadyHook β}
    (h : (w.startWork c id work []).control.readying? i = some hook) :
    work = .ready i hook.1 hook.2 ∧ w.isAlive i = true := by
  have other {callback : β} {inv : Invocation} (hrole : inv.role.hook? callback = none)
      (h : (Control.invoke callback inv).readying? i = some hook) : False := by
    cases (Control.readying?_of_role hrole i).symm.trans h
  have starts {j : InstanceId} {typeName : String} {kind : ReadyHook β} (halive : w.isAlive j = true)
      (h : (if some j = some i then some (typeName, kind) else none) = some hook) :
      SourceWork.ready j typeName kind = .ready i hook.1 hook.2 ∧ w.isAlive i = true := by
    obtain ⟨hself, hhook⟩ := Option.ite_none_right_eq_some.mp h
    cases hself
    cases hhook
    exact ⟨rfl, halive⟩
  refine startWork_cases (P := fun work p => p.control.readying? i = some hook →
    work = .ready i hook.1 hook.2 ∧ w.isAlive i = true) w c id work [] ?_ ?_ ?_ ?_ ?_ ?_ ?_ ?_ h
  · exact fun _ h => (other rfl h).elim
  · exact fun _ h => (other rfl h).elim
  · exact fun _ _ _ _ => nofun
  · exact fun j typeName callback halive h => starts halive h
  · exact fun j typeName callback halive h => starts halive h
  · exact fun _ _ _ _ _ => nofun
  · exact fun _ _ _ _ _ _ _ _ _ => nofun
  · exact fun _ _ _ _ _ _ _ _ _ _ h => (other rfl h).elim

namespace Machine

variable {client : Client σ β κ} {m : Machine σ β κ} {i : InstanceId} {c : ContextId}
  {hook : String × ReadyHook β}

/-- The source that is begun starts to work. -/
theorem startsWork_of_marks {m' : Machine σ β κ} (h' : m' = m.step client) {id : SourceId}
    {ready : List SourceId} {worked mayStay : Bool} {rest : List (Frame β)}
    (hs : marks m.stack = .iteration c (id :: ready) worked :: rest)
    (hs' : marks m'.stack = .sourceEnd c id mayStay :: .iteration c ready worked :: rest) :
    m.StartsWork client c id := by
  subst h'
  unfold StartsWork working
  rw [(desk_of_marks hs c).2, (desk_of_marks hs' c).2]
  simp [Frame.running]

/-- **A ready hook starts as its source does**, and while its instance is alive. -/
theorem begins_of_readying (h : (m.step client).control.readying? i = some hook) :
    m.world.isAlive i = true ∧ ∃ d s, m.source? d s.id = some s ∧
      s.work = .ready i hook.1 hook.2 ∧ m.StartsWork client d s.id := by
  have plain (hc : (m.step client).control.isPlain = true) : False := by
    rw [Control.readying?_of_isPlain hc] at h
    cases h
  have method {callback : β} {inv : Invocation} (hrole : inv.role.hook? callback = none)
      (hc : (m.step client).control = .invoke callback inv) : False := by
    rw [hc, Control.readying?_of_role hrole] at h
    cases h
  cases turn_step client m with
  | begins d id ready worked rest x y work hx hb hw hs hs' hc =>
    rw [hc] at h
    obtain ⟨rfl, halive⟩ := World.readying?_startWork h
    obtain ⟨s, hs'', -, hwork, -⟩ := MainContext.of_beginRun hb
    obtain ⟨-, rfl⟩ := Timetable.mem_of_source? hs''
    refine ⟨halive, d, s, ?_, hwork, startsWork_of_marks rfl hs hs'⟩
    rw [source?_eq (World.timetable?_eq hx)]
    exact hs''
  | calls j name args x callback hm hx hd hf hw hs hc => exact (method rfl hc).elim
  | callsAtOnce j name args x callback debounce hm hx hd hf hr hw hs hc =>
    exact (method rfl hc).elim
  | still hw hs hc | opens config hw hs hc | ticks c now hm hw hs hc
  | attaches c x kind priority work hx hp hw hs hc | detaches c x id hm hx hw hs hc
  | creates ofClass c hw hs hc | disposes j hm hw hs hc
  | callsLater j name args x callback debounce hm hx hd hf hr hw hs hc
  | startsInterval j name debounce callback hw hs hc
  | constructs f rest j hf hw hs hs' hc | schedules j x hx hw hs hc
  | collects c x worked hx hw hs hc | skips c id ready worked rest hx hw hs hs' hc
  | ends c id mayStay stays hstay hw hs hc | closes c worked hw hs hc => exact (plain hc).elim

/-- The callback of a ready hook that is about to start keeps its instance alive. -/
theorem alive_of_readying (h : (m.step client).control.readying? i = some hook) :
    ∃ d, (m.step client).world.duties? i = some d := by
  obtain ⟨halive, -⟩ := begins_of_readying h
  obtain ⟨x, hx⟩ := Option.isSome_iff_exists.mp halive
  have hheld : .object i ∈ (m.step client).control.handles := by
    generalize (m.step client).control = next at h
    cases next with
    | invoke callback inv =>
      obtain ⟨hself, -⟩ := Option.ite_none_right_eq_some.mp h
      unfold Control.handles Invocation.handles
      dsimp only
      rw [hself]
      simp
    | _ => cases h
  have hthere : m.world.values? i ≠ none := by
    unfold World.values?
    rw [show m.world.instance? i = some x from hx]
    exact Option.some_ne_none _
  obtain ⟨y, hy⟩ := World.exists_instance (alive_step hthere (held_of_control hheld))
  exact ⟨_, World.duties?_eq hy⟩

/-- **No ready hook starts after its instance was dropped.** -/
theorem Reachable.readying?_of_dropped (hreach : Reachable client m) {j k l : Nat} (hjk : j ≤ k)
    (hkl : k ≤ l) (halive : (m.after client j).world.isAlive i = true)
    (hdropped : (m.after client k).world.isAlive i = false) (hl : 0 < l) :
    (m.after client l).control.readying? i = none := by
  obtain ⟨l, rfl⟩ := Nat.exists_eq_add_one_of_ne_zero (Nat.ne_of_gt hl)
  refine Option.eq_none_iff_forall_ne_some.mpr fun hook h => ?_
  obtain ⟨d', hd'⟩ := alive_of_readying h
  obtain ⟨x, hx⟩ := Option.isSome_iff_exists.mp halive
  have hgiven : i.number < (m.after client k).world.nextInstance :=
    Nat.lt_of_lt_of_le ((hreach.after j).tracked.created i _ (World.duties?_eq hx))
      (ages_after client m hjk).next
  obtain ⟨d, hd, -⟩ := aged_of_given hkl hgiven hd'
  obtain ⟨y, hy, -⟩ := Option.map_eq_some_iff.mp hd
  have hthere : (m.after client k).world.isAlive i = true := Option.isSome_iff_exists.mpr ⟨y, hy⟩
  cases hthere.symm.trans hdropped

/-! ## Ready hooks that are attached -/

/-- A source that runs a ready hook after a step was attached before, or the construction of its
instance has just ended. -/
theorem Reachable.readied_of_attached (hreach : Reachable client m) {t' : Timetable β}
    (ht' : (m.step client).world.timetable? c = some t') {s' : Source β} (hs' : s' ∈ t'.sources)
    (hready : s'.work.readies i = true) :
    (∃ t, m.world.timetable? c = some t ∧ ∃ s ∈ t.sources, s'.id = s.id ∧ s'.kind = s.kind ∧
      s'.work = s.work) ∨
    s' ∈ m.readied client i c ∧ marks m.stack = .initializing i [] :: marks (m.step client).stack := by
  have hfresh (hfirst : (m.world.timetable? c).elim 0 (·.nextSource) ≤ s'.id.number)
      (hnone : ∀ t, m.world.timetable? c = some t → ∀ s ∈ t.sources, s'.id ≠ s.id) :
      s' ∈ m.readied client i c ∧
        marks m.stack = .initializing i [] :: marks (m.step client).stack := by
    constructor
    · unfold Machine.readied
      rw [ht']
      exact List.mem_filter.mpr ⟨hs', by simp [hfirst, hready]⟩
    · refine ((turn_step client m).readies (fun c => hreach.desk c) i).resolve_left fun hold => ?_
      obtain ⟨t, ht, s, hs, hid, -⟩ := hold c t' ht' s' hs' hready
      exact hnone t ht s hs hid
  cases ht : m.world.timetable? c with
  | none => exact .inr (hfresh (by rw [ht]; exact Nat.zero_le _) fun t h => nomatch ht.symm.trans h)
  | some t =>
    have hold {s : Source β} (hs : t.source? s'.id = some s) (hkind : s'.kind = s.kind)
        (hwork : s'.work = s.work) :
        ∃ s ∈ t.sources, s'.id = s.id ∧ s'.kind = s.kind ∧ s'.work = s.work := by
      obtain ⟨hmem, hid⟩ := Timetable.mem_of_source? hs
      exact ⟨s, hmem, hid.symm, hkind, hwork⟩
    cases ((turn_step client m).desk c).fate (hreach.desk c) ht ht' hs' with
    | fresh hs hid hrun hat =>
      refine .inr (hfresh (by rw [ht]; exact hid) fun u hu s hmem heq => ?_)
      obtain rfl := Option.some.inj (ht.symm.trans hu)
      rw [heq, ((hreach.desk c).present t ht).source?_of_mem hmem] at hs
      cases hs
    | kept s hs hkind hwork | started s hs hkind hwork | rearmed s hs hkind hwork =>
      exact .inl ⟨t, rfl, hold hs hkind hwork⟩

/-- The last move of a construction attaches the ready hooks of the class, or none at all. -/
theorem Reachable.readied_eq (hreach : Reachable client m)
    (hmarks : marks m.stack = .initializing i [] :: marks (m.step client).stack) :
    (∀ c, m.readied client i c = []) ∨ ∃ x, m.world.instance? i = some x ∧
      ∀ c, (m.readied client i c).map (fun s => (s.kind, s.priority, s.work)) =
        if c = x.context then
          x.ofClass.readyHooks.map fun hook => (.idle, .standard, .ready i hook.1 hook.2)
        else [] := by
  obtain ⟨reply, below, hm, hs⟩ := top_of_marks client hmarks
  -- without the instance or its context, nothing is attached
  have same (h : ∀ c, (m.step client).world.timetable? c = m.world.timetable? c) (c : ContextId) :
      m.readied client i c = [] := by
    unfold Machine.readied
    rw [h c]
    cases ht : m.world.timetable? c with
    | none => rfl
    | some t => exact ((hreach.desk c).present t ht).readied_nextSource i
  have hf : (m.step client).Follows (m.world.continueInitializing i []) below :=
    follows_resume client hm hs
  unfold World.continueInitializing at hf
  cases hx : m.world.instance? i with
  | none =>
    rw [hx] at hf
    exact .inl (same hf.world.timetable)
  | some x =>
    rw [hx] at hf
    cases ht : m.world.timetable? x.context with
    | none =>
      refine .inl (same fun c => (hf.world.timetable c).trans ?_)
      refine congrArg (World.timetable? · c) (World.scheduleHooks_of_absent (fun y hy => ?_) x)
      obtain rfl := Option.some.inj (hx.symm.trans hy)
      exact Option.map_eq_none_iff.mp ht
    | some t =>
      refine .inr ⟨x, rfl, (readied_initializing hreach ⟨x, hx, rfl, rfl⟩ ?_ hm hs).1⟩
      rw [ht]
      exact Option.some_ne_none _

end Machine

/-- Every source that runs a ready hook is idle. -/
theorem Machine.Reachable.isIdle_of_readies {client : Client σ β κ} {m : Machine σ β κ}
    (hreach : Reachable client m) {c : ContextId} {t : Timetable β}
    (ht : m.world.timetable? c = some t) {s : Source β} (hs : s ∈ t.sources) {i : InstanceId}
    (hready : s.work.readies i = true) : s.kind = .idle := by
  induction hreach generalizing c t s with
  | initial state callback => cases ht
  | @step m hreach ih =>
    rcases hreach.readied_of_attached ht hs hready with
      ⟨t, ht, r, hr, -, hkind, hwork⟩ | ⟨hmem, hmarks⟩
    · exact hkind.trans (ih ht hr (hwork ▸ hready))
    · rcases hreach.readied_eq hmarks with hnone | ⟨x, -, hattached⟩
      · rw [hnone c] at hmem
        cases hmem
      · have hentry := List.mem_map_of_mem (f := fun s => (s.kind, s.priority, s.work)) hmem
        rw [hattached c] at hentry
        split at hentry
        · obtain ⟨hook, -, heq⟩ := List.mem_map.mp hentry
          exact (Prod.mk.inj heq).1.symm
        · cases hentry

/-! ## The roll -/

/-- The ready hook that a source runs. -/
def SourceWork.hook? : SourceWork β → Option (String × ReadyHook β)
  | .ready _ typeName hook => some (typeName, hook)
  | _ => none

namespace Machine

/-- No source is attached that runs a ready hook of the instance. -/
def Unready (m : Machine σ β κ) (i : InstanceId) : Prop :=
  ∀ c t, m.world.timetable? c = some t → ∀ s ∈ t.sources, s.work.readies i = false

/-- The ready hooks of an instance have been attached to a context, and no others will be: all that
are attached are on the roll, and those that have started are some of the roll, each once. -/
structure Enrolled (m : Machine σ β κ) (i : InstanceId) (c : ContextId)
    (roll : List (SourceId × String × ReadyHook β)) (starts : List (String × ReadyHook β)) :
    Prop where
  built : i ∉ sites m.stack
  given : i.number < m.world.nextInstance
  listed : ∀ d t, m.world.timetable? d = some t → ∀ s ∈ t.sources, s.work.readies i = true →
    d = c ∧ ∃ hook, s.work.hook? = some hook ∧ (s.id, hook) ∈ roll
  ticked : ∃ done : List (SourceId × String × ReadyHook β), done.Nodup ∧ done ⊆ roll ∧
    (∀ entry ∈ done, m.Spent c entry.1) ∧ starts = done.map (·.2)

section
variable {client : Client σ β κ} {m : Machine σ β κ} {i : InstanceId} {c : ContextId}
  {roll : List (SourceId × String × ReadyHook β)} {starts : List (String × ReadyHook β)}

theorem Enrolled.subperm (h : m.Enrolled i c roll starts) : starts.Subperm (roll.map (·.2)) := by
  obtain ⟨done, hnodup, hsub, -, rfl⟩ := h.ticked
  obtain ⟨done', hperm, hsublist⟩ := List.subperm_of_subset hnodup hsub
  exact ⟨done'.map (·.2), hperm.map _, hsublist.map _⟩

/-- A ready hook that starts is on the roll and is ticked off. -/
theorem Enrolled.step (hreach : Reachable client m) (h : m.Enrolled i c roll starts) :
    (m.step client).Enrolled i c roll
      (starts ++ ((m.step client).control.readying? i).toList) := by
  refine ⟨not_mem_sites_step h.given h.built,
    Nat.lt_of_lt_of_le h.given (turn_step client m).ages.next, ?_, ?_⟩
  · intro d t' ht' s' hs' hready
    rcases hreach.readied_of_attached ht' hs' hready with
      ⟨t, ht, s, hs, hid, -, hwork⟩ | ⟨-, hmarks⟩
    · rw [hwork] at hready ⊢
      rw [hid]
      exact h.listed d t ht s hs hready
    · refine absurd ?_ h.built
      unfold Machine.sites
      rw [hmarks]
      exact List.mem_cons_self
  · obtain ⟨done, hnodup, hsub, hspent, rfl⟩ := h.ticked
    have hspent' : ∀ entry ∈ done, (m.step client).Spent c entry.1 :=
      fun entry hentry => (hspent entry hentry).step hreach
    cases hhook : (m.step client).control.readying? i with
    | none => exact ⟨done, hnodup, hsub, hspent', List.append_nil _⟩
    | some hook =>
      obtain ⟨-, d, s, hs, hwork, hstarts⟩ := begins_of_readying hhook
      obtain ⟨t, ht, hfound⟩ := timetable_of_source? hs
      have hready : s.work.readies i = true := by
        rw [hwork]
        exact decide_eq_true rfl
      obtain ⟨rfl, hook', hhook', hroll⟩ :=
        h.listed d t ht s (List.mem_of_find?_eq_some hfound) hready
      rw [hwork] at hhook'
      obtain rfl : hook = hook' := Option.some.inj hhook'
      have hnew : (s.id, hook) ∉ done := fun hmem => (hspent _ hmem).not_startsWork hreach hstarts
      refine ⟨done ++ [(s.id, hook)], ?_, ?_, ?_, by rw [List.map_append]; rfl⟩
      · exact hnodup.append (List.nodup_singleton _) (List.disjoint_singleton.mpr hnew)
      · exact List.append_subset.mpr ⟨hsub, fun entry hentry => List.mem_singleton.mp hentry ▸ hroll⟩
      · intro entry hentry
        rcases List.mem_append.mp hentry with hentry | hentry
        · exact hspent' entry hentry
        · rw [List.mem_singleton.mp hentry]
          exact hstarts.spent hreach hs (by rw [hwork]; rfl)

/-- Before its ready hooks are attached, none of an instance starts; when they are, all of them and
no others are on the roll. -/
theorem Unready.step (hreach : Reachable client m) (h : m.Unready i) :
    (m.step client).control.readying? i = none ∧ ((m.step client).Unready i ∨
      ∃ c roll, (m.step client).Enrolled i c roll [] ∧
        (roll = [] ∨ ∃ x, m.world.instance? i = some x ∧ roll.map (·.2) = x.ofClass.readyHooks)) := by
  constructor
  · refine Option.eq_none_iff_forall_ne_some.mpr fun hook hhook => ?_
    obtain ⟨-, d, s, hs, hwork, -⟩ := begins_of_readying hhook
    obtain ⟨t, ht, hfound⟩ := timetable_of_source? hs
    have hnone := h d t ht s (List.mem_of_find?_eq_some hfound)
    rw [hwork] at hnone
    exact absurd (decide_eq_true rfl) (Bool.eq_false_iff.mp hnone)
  · have hnew {c : ContextId} {t' : Timetable β}
        (ht' : (m.step client).world.timetable? c = some t') {s' : Source β}
        (hs' : s' ∈ t'.sources) (hready : s'.work.readies i = true) :
        s' ∈ m.readied client i c ∧
          marks m.stack = .initializing i [] :: marks (m.step client).stack := by
      refine (hreach.readied_of_attached ht' hs' hready).resolve_left ?_
      rintro ⟨t, ht, s, hs, -, -, hwork⟩
      rw [hwork] at hready
      cases (h c t ht s hs).symm.trans hready
    by_cases hmarks : marks m.stack = .initializing i [] :: marks (m.step client).stack
    · refine .inr ?_
      have hsites : sites m.stack = i :: sites (m.step client).stack := by
        unfold Machine.sites
        rw [hmarks]
        rfl
      obtain ⟨hnodup, hgiven⟩ := hreach.sites
      rw [hsites] at hnodup hgiven
      have hbuilt := (List.nodup_cons.mp hnodup).1
      have hlater : i.number < (m.step client).world.nextInstance :=
        Nat.lt_of_lt_of_le (hgiven i List.mem_cons_self) (turn_step client m).ages.next
      rcases hreach.readied_eq hmarks with hnone | ⟨x, hx, hattached⟩
      · refine ⟨⟨0⟩, [], ⟨hbuilt, hlater, fun d t' ht' s' hs' hready => ?_,
          [], .nil, List.Subset.refl _, nofun, rfl⟩, .inl rfl⟩
        have hmem := (hnew ht' hs' hready).1
        rw [hnone d] at hmem
        cases hmem
      · obtain ⟨roll, hroll⟩ : ∃ roll, roll = (m.readied client i x.context).filterMap
          fun s => s.work.hook?.map (s.id, ·) := ⟨_, rfl⟩
        refine ⟨x.context, roll, ⟨hbuilt, hlater, fun d t' ht' s' hs' hready => ?_,
          [], .nil, List.nil_subset _, nofun, rfl⟩, .inr ⟨x, hx, ?_⟩⟩
        · have hmem := (hnew ht' hs' hready).1
          obtain rfl : d = x.context := by
            by_contra hne
            have hempty := hattached d
            rw [if_neg hne] at hempty
            rw [List.map_eq_nil_iff.mp hempty] at hmem
            cases hmem
          refine ⟨rfl, ?_⟩
          cases hwork : s'.work with
          | ready j typeName hook =>
            refine ⟨(typeName, hook), rfl, ?_⟩
            rw [hroll]
            exact List.mem_filterMap.mpr ⟨s', hmem, by rw [hwork]; rfl⟩
          | _ =>
            rw [hwork] at hready
            cases hready
        · have hhooks : roll.map (·.2) = ((m.readied client i x.context).map
              fun s => (s.kind, s.priority, s.work)).filterMap (·.2.2.hook?) := by
            rw [hroll, List.map_filterMap, List.filterMap_map]
            refine List.filterMap_congr fun s _ => ?_
            cases hwork : s.work <;> simp [SourceWork.hook?, hwork]
          rw [hhooks, hattached x.context, if_pos rfl, List.filterMap_map]
          exact List.filterMap_some
    · refine .inl fun c t' ht' s' hs' => ?_
      exact Bool.eq_false_iff.mpr fun hready => hmarks (hnew ht' hs' hready).2

/-- At every moment of a run, the ready hooks of an instance have not been attached, or they are on
the roll of its class. -/
theorem readyStarts_spec (client : Client σ β κ) (state : σ) (program : β) (i : InstanceId)
    (n : Nat) :
    let m₀ : Machine σ β κ := .initial state program
    (m₀.after client n).Unready i ∧ m₀.readyStarts client i (n + 1) = [] ∨
      ∃ c roll, (m₀.after client n).Enrolled i c roll (m₀.readyStarts client i (n + 1)) ∧
        (roll = [] ∨ ∃ j x, (m₀.after client j).world.instance? i = some x ∧
          roll.map (·.2) = x.ofClass.readyHooks) := by
  intro m₀
  have hreach : Reachable client m₀ := .initial state program
  have hnext (n : Nat) : m₀.readyStarts client i (n + 1 + 1) = m₀.readyStarts client i (n + 1) ++
      (((m₀.after client n).step client).control.readying? i).toList := by
    unfold Machine.readyStarts
    rw [log_add, log_one]
    rfl
  induction n with
  | zero =>
    refine .inl ⟨fun c t ht => (by cases ht), ?_⟩
    unfold Machine.readyStarts
    rw [Nat.zero_add, log_one]
    rfl
  | succ n ih =>
    rw [hnext]
    rcases ih with ⟨hunready, hnone⟩ | ⟨c, roll, henrolled, hroll⟩
    · obtain ⟨hcontrol, hunready | ⟨c, roll, henrolled, hroll⟩⟩ := hunready.step (hreach.after n)
      · exact .inl ⟨hunready, by rw [hnone, hcontrol]; rfl⟩
      · refine .inr ⟨c, roll, ?_, hroll.imp_right fun ⟨x, hx, heq⟩ => ⟨n, x, hx, heq⟩⟩
        rw [hnone, hcontrol]
        exact henrolled
    · exact .inr ⟨c, roll, henrolled.step (hreach.after n), hroll⟩

/-- **The ready hooks of an instance that have started are some of its class, each once.** -/
theorem readyStarts_subperm (client : Client σ β κ) (state : σ) (program : β) {k : Nat}
    {x : Instance β}
    (hx : ((initial state program : Machine σ β κ).after client k).world.instance? i = some x)
    (n : Nat) : ((initial state program : Machine σ β κ).readyStarts client i n).Subperm
      x.ofClass.readyHooks := by
  cases n with
  | zero => exact List.nil_subperm
  | succ n =>
    rcases readyStarts_spec client state program i n with ⟨-, hnone⟩ | ⟨c, roll, henrolled, hroll⟩
    · rw [hnone]
      exact List.nil_subperm
    · have hsubperm := henrolled.subperm
      rcases hroll with rfl | ⟨j, y, hy, hhooks⟩
      · rw [List.subperm_nil.mp hsubperm]
        exact List.nil_subperm
      · have hreach : Reachable client (initial state program) := .initial state program
        have hclass : x.ofClass = y.ofClass := by
          rcases Nat.le_total j k with hjk | hkj
          · exact (hreach.aged hjk (World.duties?_eq hy) (World.duties?_eq hx)).ofClass
          · exact (hreach.aged hkj (World.duties?_eq hx) (World.duties?_eq hy)).ofClass.symm
        rw [hclass, ← hhooks]
        exact hsubperm

end

end Machine

/-! ## What is on record stays there -/

namespace World

/-- Instances stay, and their ready hooks stay on record. -/
def Retains (w v : World β) : Prop :=
  ∀ i d, w.duties? i = some d → ∃ d', v.duties? i = some d' ∧ d.readySources ⊆ d'.readySources

section
variable {u v w : World β}

theorem Retains.trans (h : Retains u v) (g : Retains v w) : Retains u w := by
  intro i d hd
  obtain ⟨d', hd', hsub⟩ := h i d hd
  obtain ⟨d'', hd'', hsub'⟩ := g i d' hd'
  exact ⟨d'', hd'', List.Subset.trans hsub hsub'⟩

theorem retains_of_eq (h : ∀ i, v.duties? i = w.duties? i) : Retains w v :=
  fun i d hd => ⟨d, (h i).trans hd, List.Subset.refl _⟩

theorem retains_modifyInstance (w : World β) (i : InstanceId) {f : Instance β → Instance β}
    (hf : ∀ x, x.readySources ⊆ (f x).readySources) : Retains w (w.modifyInstance i f) := by
  intro j d hd
  obtain ⟨x, hx, rfl⟩ := Option.map_eq_some_iff.mp hd
  rw [duties?_modifyInstance]
  split
  · rw [hx]
    exact ⟨_, rfl, hf x⟩
  · exact ⟨x.duties, hd, List.Subset.refl _⟩

theorem retains_setBurst (w : World β) (i : InstanceId) (name : String) (burst : Burst) :
    Retains w (w.modifyInstance i (·.setBurst name burst)) :=
  retains_modifyInstance w i fun _ => List.Subset.refl _

theorem retains_addInstance (w : World β) (ofClass : Class β) (c : ContextId) :
    Retains w (w.addInstance ofClass c).1 := by
  intro i d hd
  refine ⟨d, ?_, List.Subset.refl _⟩
  rw [duties?_addInstance, hd]
  rfl

theorem retains_scheduleHooks (w : World β) (i : InstanceId) (x : Instance β) :
    Retains w (w.scheduleHooks i x) := by
  refine scheduleHooks_induction w i x (retains_of_eq fun _ => rfl)
    fun v typeName hook hv => hv.trans ?_
  refine scheduleReady_induction v i typeName hook (retains_of_eq fun _ => rfl) fun z y _ _ => ?_
  refine Retains.trans ?_ (retains_modifyInstance _ i fun _ => List.subset_append_left _ _)
  exact retains_of_eq fun _ => rfl

theorem retains_restartBurst (w : World β) (i : InstanceId) (name : String) (debounce : Debounce)
    (callback : β) : Retains w (w.restartBurst i name debounce callback) := by
  refine restartBurst_induction w i name debounce callback (retains_of_eq fun _ => rfl)
    fun x y _ _ => ?_
  refine Retains.trans ?_ (retains_setBurst _ i name _)
  exact retains_of_eq fun _ => rfl

/-- A disposal strikes nothing off the record of another instance. -/
theorem retained_dispose {i j : InstanceId} {d d' : Duties β} (hd : w.duties? i = some d)
    (hd' : (w.dispose j).duties? i = some d') : d' = d ∨ d'.disposed = true := by
  revert hd'
  refine dispose_induction w j (fun hd' => .inl (Option.some.inj (hd'.symm.trans hd)))
    fun x hx hdisposed hd' => ?_
  rw [← dispose_eq hx hdisposed, duties?_dispose hx hdisposed] at hd'
  split at hd'
  · obtain rfl := Option.some.inj hd'
    exact .inr rfl
  · exact .inl (Option.some.inj (hd'.symm.trans hd))

/-- The start of a source strikes at most this source off a record, and that as a ready hook that
starts. -/
theorem retained_startWork {c : ContextId} {id : SourceId} {work : SourceWork β} {i : InstanceId}
    {d d' : Duties β} (hd : w.duties? i = some d)
    (hd' : (w.startWork c id work []).world.duties? i = some d') :
    d.readySources ⊆ d'.readySources ∨ d'.readySources = d.readySources.filter (· ≠ id) ∧
      ∃ hook, work = .ready i hook.1 hook.2 ∧
        (w.startWork c id work []).control.readying? i = some hook := by
  have kept {v : World β} (h : Retains w v) (hv : v.duties? i = some d') :
      d.readySources ⊆ d'.readySources := by
    obtain ⟨e, he, hsub⟩ := h i d hd
    obtain rfl := Option.some.inj (hv.symm.trans he)
    exact hsub
  have same (hv : w.duties? i = some d') : d.readySources ⊆ d'.readySources :=
    kept (retains_of_eq fun _ => rfl) hv
  have untracked {j : InstanceId} (hook : String × ReadyHook β) {control : Control β}
      (hstarts : control.readying? j = some hook)
      (hv : (w.modifyInstance j (·.untrackReady id)).duties? i = some d') :
      d.readySources ⊆ d'.readySources ∨ d'.readySources = d.readySources.filter (· ≠ id) ∧
        ∃ hook', SourceWork.ready j hook.1 hook.2 = .ready i hook'.1 hook'.2 ∧
          control.readying? i = some hook' := by
    rw [duties?_modifyInstance] at hv
    split at hv
    · next hij =>
      subst hij
      obtain ⟨x, hx, rfl⟩ := Option.map_eq_some_iff.mp hd
      rw [hx] at hv
      obtain rfl := Option.some.inj hv
      exact .inr ⟨rfl, hook, rfl, hstarts⟩
    · exact .inl (same hv)
  refine startWork_cases (P := fun work p => p.world.duties? i = some d' →
    d.readySources ⊆ d'.readySources ∨ d'.readySources = d.readySources.filter (· ≠ id) ∧
      ∃ hook, work = .ready i hook.1 hook.2 ∧ p.control.readying? i = some hook)
    w c id work [] ?_ ?_ ?_ ?_ ?_ ?_ ?_ ?_ hd'
  · exact fun _ hv => .inl (same hv)
  · exact fun _ hv => .inl (same hv)
  · exact fun _ _ _ _ hv => .inl (same hv)
  · exact fun j typeName callback _ hv =>
      untracked (typeName, .immediate callback) (if_pos rfl) hv
  · exact fun j typeName callback _ hv =>
      untracked (typeName, .deferred callback) (if_pos rfl) hv
  · exact fun _ _ _ _ _ hv => .inl (same hv)
  · exact fun j name _ _ _ _ _ _ _ hv => .inl (kept (retains_setBurst w j name _) hv)
  · exact fun j name _ _ _ _ _ _ _ _ hv => .inl (kept (retains_setBurst w j name _) hv)

end

end World

namespace Machine

variable {client : Client σ β κ} {m : Machine σ β κ} {i : InstanceId} {c : ContextId}
  {id : SourceId} {hook : String × ReadyHook β}

/-- **A ready hook on record stays there** until it starts or its instance is disposed. -/
theorem Reachable.retains (hreach : Reachable client m) {d d' : Duties β}
    (hd : m.world.duties? i = some d) (hd' : (m.step client).world.duties? i = some d')
    (hid : id ∈ d.readySources)
    (hassigned : m.world.Assigned d.context id (· = .ready i hook.1 hook.2)) :
    d'.disposed = true ∨ id ∈ d'.readySources ∨ m.StartsWork client d.context id ∧
      (m.step client).control.readying? i = some hook := by
  have edit {u : World β} (hw : World.Steady u (m.step client).world)
      (hr : World.Retains m.world u) : id ∈ d'.readySources := by
    obtain ⟨e, he, hsub⟩ := hr i d hd
    obtain rfl := Option.some.inj ((hw.duties_of_some hd').symm.trans he)
    exact hsub hid
  have same {u : World β} (hw : World.Steady u (m.step client).world)
      (hsame : ∀ i, u.duties? i = m.world.duties? i) :
      d'.disposed = true ∨ id ∈ d'.readySources ∨ m.StartsWork client d.context id ∧
        (m.step client).control.readying? i = some hook :=
    .inr (.inl (edit hw (World.retains_of_eq hsame)))
  cases turn_step client m with
  | still hw hs hc => exact same hw fun _ => rfl
  | opens config hw hs hc => exact same hw fun _ => rfl
  | ticks c now hm hw hs hc => exact same hw fun _ => rfl
  | attaches c x kind priority work hx hp hw hs hc => exact same hw fun _ => rfl
  | detaches c x id hm hx hw hs hc => exact same hw fun _ => rfl
  | creates ofClass c hw hs hc =>
    exact .inr (.inl (edit hw (World.retains_addInstance _ ofClass c)))
  | disposes j hm hw hs hc =>
    rcases World.retained_dispose hd (hw.duties_of_some hd') with rfl | hdisposed
    · exact .inr (.inl hid)
    · exact .inl hdisposed
  | calls j name args x callback hm hx hf hdis hw hs hc => exact same hw fun _ => rfl
  | callsAtOnce j name args x callback debounce hm hx hf hdis hr hw hs hc =>
    exact .inr (.inl (edit hw (World.retains_setBurst _ j name _)))
  | callsLater j name args x callback debounce hm hx hf hdis hr hw hs hc =>
    exact .inr (.inl (edit hw ((World.retains_setBurst _ j name _).trans
      (World.retains_restartBurst _ j name debounce callback))))
  | startsInterval j name debounce callback hw hs hc =>
    exact .inr (.inl (edit hw (World.retains_restartBurst _ j name debounce callback)))
  | constructs f rest j hf hw hs hs' hc => exact same hw fun _ => rfl
  | schedules j x hx hw hs hc =>
    exact .inr (.inl (edit hw (World.retains_scheduleHooks _ j x)))
  | collects c x worked hx hw hs hc => exact same hw fun _ => rfl
  | skips c id ready worked rest hx hw hs hs' hc => exact same hw fun _ => rfl
  | begins c other ready worked rest x y work hx hb hw hs hs' hc =>
    have hset : (m.world.setContext c y).duties? i = some d := hd
    rcases World.retained_startWork hset (hw.duties_of_some hd') with
      hsub | ⟨hready, hook', rfl, hreadying⟩
    · exact .inr (.inl (hsub hid))
    · by_cases hne : id = other
      · subst hne
        -- the source that starts is the one on record
        obtain ⟨s, hfound, hrun, hwork, -⟩ := MainContext.of_beginRun hb
        obtain ⟨hmem, rfl⟩ := Timetable.mem_of_source? hfound
        obtain ⟨-, hrecords⟩ := hreach.tracked.tracks c _ (World.timetable?_eq hx) s hmem i
          (by rw [hwork]; rfl)
        obtain ⟨rfl, -⟩ := hrecords hrun d hd
        obtain ⟨t, ht, -, hkind⟩ := hassigned
        obtain rfl := Option.some.inj (ht.symm.trans (World.timetable?_eq hx))
        obtain ⟨-, hname, hhook⟩ := SourceWork.ready.inj (hwork.symm.trans (hkind s hmem rfl))
        refine .inr (.inr ⟨startsWork_of_marks rfl hs hs', ?_⟩)
        rw [hc, hreadying]
        exact congrArg some (Prod.ext hname hhook)
      · rw [hready]
        exact .inr (.inl (List.mem_filter.mpr ⟨hid, by simpa using hne⟩))
  | ends c id mayStay stays hstay hw hs hc => exact same hw fun _ => rfl
  | closes c worked hw hs hc => exact same hw fun _ => rfl

/-- From a moment on, a ready hook on record has started, or stands there still as long as its
instance is alive and not disposed. -/
theorem Reachable.retains_after (hreach : Reachable client m) {d : Duties β}
    (hd : m.world.duties? i = some d) (hid : id ∈ d.readySources)
    (hassigned : m.world.Assigned d.context id (· = .ready i hook.1 hook.2)) (n : Nat) :
    (∃ k, k < n ∧ (m.after client k).StartsWork client d.context id ∧
      (m.after client (k + 1)).control.readying? i = some hook) ∨
    ∀ d', (m.after client n).world.duties? i = some d' →
      d'.disposed = true ∨ id ∈ d'.readySources := by
  induction n with
  | zero =>
    refine .inr fun d' hd' => .inr ?_
    obtain rfl := Option.some.inj (hd.symm.trans hd')
    exact hid
  | succ n ih =>
    rcases ih with ⟨k, hk, hstarts⟩ | hstands
    · exact .inl ⟨k, Nat.lt_succ_of_lt hk, hstarts⟩
    · by_cases hstarts : (m.after client n).StartsWork client d.context id ∧
        (m.after client (n + 1)).control.readying? i = some hook
      · exact .inl ⟨n, Nat.lt_succ_self n, hstarts⟩
      · refine .inr fun d'' hd'' => ?_
        have hgiven : i.number < (m.after client n).world.nextInstance :=
          Nat.lt_of_lt_of_le (hreach.tracked.created i d hd)
            (ages_after client m (Nat.zero_le n)).next
        obtain ⟨d', hd', haged⟩ := aged_of_given (Nat.le_succ n) hgiven hd''
        have hcontext := (hreach.aged (Nat.zero_le n) hd hd').context
        rcases hstands d' hd' with hdisposed | hid'
        · exact .inl (haged.disposed hdisposed)
        · have hlater := assigned_after hreach hassigned n
          rw [← hcontext] at hlater hstarts
          rcases (hreach.after n).retains hd' hd'' hid' hlater with hdisposed | hid'' | hnow
          · exact .inl hdisposed
          · exact .inr hid''
          · exact absurd hnow hstarts

/-- As long as the instance is there and not disposed of, the hook has started or waits. -/
theorem Reachable.starts_or_holds (hreach : Reachable client m) {d : Duties β}
    (hd : m.world.duties? i = some d) (hid : id ∈ d.readySources)
    (hassigned : m.world.Assigned d.context id (· = .ready i hook.1 hook.2)) {l n : Nat} (hl : l ≤ n)
    (hcurrent : (m.after client l).world.Current) {d' : Duties β}
    (hd' : (m.after client n).world.duties? i = some d') (hlasts : d'.disposed = false) :
    (∃ k, k < l ∧ (m.after client k).StartsWork client d.context id ∧
      (m.after client (k + 1)).control.readying? i = some hook) ∨
    (m.after client l).world.Holds d.context i id none := by
  rcases hreach.retains_after hd hid hassigned l with hstarts | hstands
  · exact .inl hstarts
  · have hgiven : i.number < (m.after client l).world.nextInstance :=
      Nat.lt_of_lt_of_le (hreach.tracked.created i _ hd) (ages_after client m (Nat.zero_le l)).next
    obtain ⟨e, he, haged⟩ := aged_of_given hl hgiven hd'
    rcases hstands e he with hdisposed | hid
    · cases hlasts.symm.trans (haged.disposed hdisposed)
    · have hcontext := (hreach.aged (Nat.zero_le l) hd he).context
      exact .inr (hcurrent.holds d.context i id none ⟨e, he, hcontext, hid⟩)

/-! ## Iterations -/

/-- What waits to do deferred work is attached, and does not work. -/
theorem Reachable.attached_of_holds (hreach : Reachable client m) {name? : Option String}
    (h : m.world.Holds c i id name?) :
    (m.source? c id).isSome = true ∧ id ∉ m.working c := by
  obtain ⟨s, rfl, -, t, ht, r, hr, hid, -, -, -, hidle⟩ := h
  have hsound := (hreach.desk c).present t ht
  have hfound := hsound.source?_of_mem hr
  rw [hid] at hfound
  refine ⟨?_, fun hworks => ?_⟩
  · rw [source?_eq ht, show t.sources.find? (·.id = s.id) = some r from hfound]
    rfl
  · rw [← hid] at hworks
    cases hidle.symm.trans ((hsound.runs r hr).mpr hworks)

/-- Whoever has the identity of an attached source does its work. -/
theorem Reachable.assigned_of_mem (hreach : Reachable client m) {t : Timetable β}
    (ht : m.world.timetable? c = some t) {s : Source β} (hs : s ∈ t.sources) :
    m.world.Assigned c s.id (· = s.work) := by
  have hsound := (hreach.desk c).present t ht
  refine ⟨t, ht, hsound.fresh s hs, fun r hr hid => ?_⟩
  rw [hsound.eq_of_id hr hs hid]

/-- What waits to do deferred work has never started. -/
theorem Reachable.not_started_of_holds (hreach : Reachable client m) {name? : Option String}
    {n : Nat} (h : (m.after client (n + 1)).world.Holds c i id name?) :
    ¬ m.StartsWork client c id := by
  intro hstarts
  obtain ⟨r, hr, -⟩ := hstarts.attached hreach
  obtain ⟨t, ht, hfound⟩ := timetable_of_source? hr
  obtain ⟨hmem, rfl⟩ := Timetable.mem_of_source? hfound
  have hlater := assigned_after hreach (hreach.assigned_of_mem ht hmem) (n + 1)
  obtain ⟨hattached, hrests⟩ := (hreach.after (n + 1)).attached_of_holds h
  -- it still does the same work, which may not stay once it has started
  have hstays : r.work.mayStay = false := by
    obtain ⟨s, hid, hentry, t', ht', s', hs', hid', -, hwork, -⟩ := h
    obtain ⟨u, hu, -, hkind⟩ := hlater
    obtain rfl := Option.some.inj (ht'.symm.trans hu)
    rw [← hkind s' hs' (hid'.trans hid), hwork]
    cases hw : s.work with
    | ready j typeName hook => rfl
    | endOfBurst j name trigger callback => rfl
    | _ =>
      rw [hw] at hentry
      cases hentry
  have hspent := (hstarts.spent hreach hr hstays).after hreach.step n
  rw [after_succ] at hspent
  rcases hspent with hruns | ⟨u, hu, hnone, -⟩
  · exact hrests (List.mem_map_of_mem hruns)
  · rw [source?_eq hu, show u.sources.find? (·.id = r.id) = none from hnone] at hattached
    cases hattached

/-- **An iteration starts every ready hook that waits when it collects its sources**, whatever the
others do, unless the instance is disposed or dropped in the meantime. -/
theorem Reachable.starts_of_pending (hreach : Reachable client m)
    (hm : m.control = .perform (.iterate c)) {x : MainContext β} (hx : m.world.context? c = some x)
    {n : Nat}
    (hbusy : ∀ k, 0 < k → k ≤ n → m.stack.length < (m.after client k).stack.length)
    (hover : (m.after client (n + 1)).stack.length = m.stack.length)
    (hcurrent : ∀ k, k ≤ n + 1 → (m.after client k).world.Current) :
    ∃ j, 0 < j ∧ j ≤ n ∧ (m.after client j).Collects c m.stack ∧
      ∀ s i hook, (m.after client j).source? c s.id = some s → s.running = false →
        s.work = .ready i hook.1 hook.2 → (m.after client j).world.isAlive i = true →
        (∃ k, j ≤ k ∧ k ≤ n ∧ (m.after client k).StartsWork client c s.id ∧
          (m.after client (k + 1)).control.readying? i = some hook) ∨
        ∀ y, (m.after client (n + 1)).world.instance? i = some y → y.disposed = true := by
  rcases halves_of_iteration hreach hm hx hbusy with
    ⟨hpolling, -⟩ | ⟨j, t, rest, hj, hjn, hcollection, hlineup, hend⟩
  · exact absurd hover (Nat.ne_of_gt hpolling.length_lt)
  obtain rfl : rest = [] := by
    rcases hend with hdispatching | ⟨hrest, -⟩
    · exact absurd hover (Nat.ne_of_gt hdispatching.length_lt)
    · exact hrest
  refine ⟨j, hj, hjn, hcollection.collects, fun s i hook hs hrun hwork halive => ?_⟩
  have hat := hreach.after j
  have hsound := (hat.desk c).present t hcollection.sources
  obtain ⟨hmem, -⟩ := Timetable.mem_of_source? ((source?_eq hcollection.sources s.id).symm.trans hs)
  -- it is on record, and on the list of the iteration
  obtain ⟨z, hz⟩ := Option.isSome_iff_exists.mp halive
  have hd := World.duties?_eq hz
  obtain ⟨-, hrecords⟩ := hat.tracked.tracks c t hcollection.sources s hmem i (by rw [hwork]; rfl)
  obtain ⟨hcontext, hrecord⟩ := hrecords hrun _ hd
  have hassigned := hat.assigned_of_mem hcollection.sources hmem
  rw [hwork] at hrecord hassigned
  rw [← hcontext] at hassigned
  have hidle : s.kind = .idle :=
    hat.isIdle_of_readies hcollection.sources hmem (i := i)
      (by rw [hwork]; exact decide_eq_true rfl)
  have hready : s.id ∈ m.lineup client m.stack.length (n + 1) := by
    rw [← List.append_nil (m.lineup client m.stack.length (n + 1)), hlineup]
    refine Timetable.mem_ready hsound.nodup hmem (.inl ?_)
    unfold Source.isReadyIdle
    rw [hidle, hrun]
    rfl
  obtain ⟨k, hk, hnext⟩ := List.mem_filterMap.mp hready
  have hkn : k ≤ n := Nat.le_of_lt_succ (List.mem_range.mp hk)
  have hjk : j < k := hcollection.lt_of_upNext? hreach hm hx
    (fun l hl hlj => hbusy l hl (Nat.le_trans hlj hjn)) hj hnext
  obtain ⟨e, rfl⟩ : ∃ e, k = j + (e + 1) := Nat.exists_eq_add_of_lt hjk
  obtain ⟨f, hf⟩ : ∃ f, n + 1 = j + f := Nat.exists_eq_add_of_le (Nat.le_succ_of_le hjn)
  -- until its turn, and after it, it waits unless it has started
  have hwaits (l : Nat) (hl : l ≤ e + 2) (y : Instance β)
      (hy : (m.after client (n + 1)).world.instance? i = some y) (hlasts : y.disposed = false) :
      (∃ k, j ≤ k ∧ k ≤ n ∧ (m.after client k).StartsWork client c s.id ∧
        (m.after client (k + 1)).control.readying? i = some hook) ∨
      (m.after client (j + l)).world.Holds c i s.id none := by
    rw [hf, after_add] at hy
    rw [after_add]
    have hcurrent := hcurrent (j + l) (by omega)
    rw [after_add] at hcurrent
    rcases hat.starts_or_holds hd hrecord hassigned (by omega) hcurrent (World.duties?_eq hy)
      hlasts with ⟨k, hk, hstarts, hreadying⟩ | hholds
    · rw [hcontext] at hstarts
      rw [← after_add] at hstarts hreadying
      exact .inl ⟨j + k, Nat.le_add_right j k, by omega, hstarts, hreadying⟩
    · rw [hcontext] at hholds
      exact .inr hholds
  rw [or_iff_not_imp_left]
  intro hnever y hy
  by_contra hlasts
  rw [Bool.not_eq_true] at hlasts
  -- a source that has its turn and is attached starts, and then does not wait any more
  have hbefore := (hwaits (e + 1) (Nat.le_succ _) y hy hlasts).resolve_left hnever
  have hafter := (hwaits (e + 2) (Nat.le_refl _) y hy hlasts).resolve_left hnever
  obtain ⟨hattached, -⟩ := (hreach.after (j + (e + 1))).attached_of_holds hbefore
  obtain ⟨-, hrests⟩ := (hreach.after (j + (e + 2))).attached_of_holds hafter
  have hturn := (starts?_of_iteration hreach hm hx hbusy hkn).1
  rw [hnext, Option.filter_some, if_pos hattached] at hturn
  have hworks := (starts?_eq_some.mp hturn).2
  exact hrests (hworks ▸ List.mem_cons_self)

end Machine

end ObjectSystem
