import ObjectSystem.Proofs.Effects
import ObjectSystem.Proofs.Readying
import ObjectSystem.Proofs.Refusals

/-!
# The order of a construction

When its instance is prepared, a construction writes the construct properties, runs the init hooks
and attaches the ready hooks. `Machine.milestones` notes what it comes to in a run: each of its
writes and how it ends, every init hook of the instance that starts, and every source for a ready
hook of it that anything attaches. Between two milestones the callbacks of the program run, above the
construction on the stack, and nothing is noted (`Machine.Site.busy`): nothing but a construction
does any of these, and no instance is under construction twice.

A construction either comes to its end, or one of the callbacks that it starts hangs
(`Machine.Passes`); it is followed from the last phase to the first. `construction_order` is the
contract.
-/

namespace ObjectSystem

variable {σ β κ : Type}

open Machine (Reachable)

/-! ## Milestones -/

/-- What a construction comes to when its instance is prepared. -/
inductive Milestone (β : Type) where
  /-- A construct property is to be written. -/
  | writes (name : String) (value : Value)
  /-- The write is done. -/
  | written
  /-- The write was refused. -/
  | refused (error : PropertyError)
  /-- An init hook starts. -/
  | runs (typeName : String) (hook : β)
  /-- A source for a ready hook is attached. -/
  | attaches (kind : SourceKind) (priority : Priority) (work : SourceWork β)

/-- The init hooks of a class with the types that declare them, the root's first. -/
def Class.initHooks (c : Class β) : List (String × β) :=
  c.rootFirst.flatMap fun level => level.initHooks.map (level.typeName, ·)

namespace Milestone

/-- Construct properties are written one after the other. -/
def ofWrites (properties : List (String × Value)) : List (Milestone β) :=
  properties.flatMap fun property => [.writes property.1 property.2, .written]

/-- Init hooks run, and then ready hooks are attached. -/
def ofHooks (i : InstanceId) (initHooks : List (String × β)) (readyHooks : List (String × ReadyHook β)) :
    List (Milestone β) :=
  initHooks.map (fun hook => .runs hook.1 hook.2)
    ++ readyHooks.map fun hook => .attaches .idle .standard (.ready i hook.1 hook.2)

end Milestone

/-- All that the construction of an instance is to come to, seen from a context: the ready hooks are
attached to the context of the instance. -/
def Construction.milestones (con : Construction β) (i : InstanceId) (c : ContextId) :
    List (Milestone β) :=
  Milestone.ofWrites con.properties ++ Milestone.ofHooks i con.ofClass.initHooks
    (if c = con.context then con.ofClass.readyHooks else [])

/-- How a construction writes its properties: one after the other, up to the first one that is
refused. When all are written, it comes to the milestones that are left and replies the instance. -/
inductive Construction.Unfolds (i : InstanceId) (left : List (Milestone β)) :
    List (String × Value) → Reply β → List (Milestone β) → Prop
  | made : Unfolds i left [] (.object i) left
  | written (name : String) (value : Value) {rest : List (String × Value)} {reply : Reply β}
      {log : List (Milestone β)} (h : Unfolds i left rest reply log) :
      Unfolds i left ((name, value) :: rest) reply (.writes name value :: .written :: log)
  | refused (name : String) (value : Value) (rest : List (String × Value)) (e : PropertyError) :
      Unfolds i left ((name, value) :: rest) (.failed (.construct (.property e)))
        [.writes name value, .refused e]

/-- It ends with the instance when all properties are written, or with the error of the first one
that is refused. -/
theorem Construction.Unfolds.ends {i : InstanceId} {left : List (Milestone β)}
    {properties : List (String × Value)} {reply : Reply β} {log : List (Milestone β)}
    (h : Unfolds i left properties reply log) :
    reply = .object i ∧ log = Milestone.ofWrites properties ++ left ∨
      ∃ before name value after e, properties = before ++ (name, value) :: after ∧
        reply = .failed (.construct (.property e)) ∧
        log = Milestone.ofWrites before ++ [.writes name value, .refused e] := by
  induction h with
  | made => exact .inl ⟨rfl, rfl⟩
  | refused name value rest e => exact .inr ⟨[], name, value, rest, e, rfl, rfl, rfl⟩
  | written name value h ih =>
    rcases ih with ⟨rfl, rfl⟩ | ⟨before, name', value', after, e, rfl, rfl, rfl⟩
    · exact .inl ⟨rfl, rfl⟩
    · exact .inr ⟨(name, value) :: before, name', value', after, e, rfl, rfl, rfl⟩

namespace Control

/-- What an operation that constructs an instance writes, or is told, when it is on top. -/
def writing (i : InstanceId) : Control β → List (Milestone β)
  | .perform (.setProperty j name value) => if j = i then [.writes name value] else []
  | .deliver .done => [.written]
  | .deliver (.failed (.property e)) => [.refused e]
  | _ => []

/-- The init hook of an instance that starts. -/
def starting (i : InstanceId) : Control β → List (Milestone β)
  | .invoke hook { role := .initHook typeName, self, .. } =>
    if self = some i then [.runs typeName hook] else []
  | _ => []

theorem exists_of_starting {c : Control β} {i : InstanceId} (h : c.starting i ≠ []) :
    ∃ hook inv typeName, c = .invoke hook inv ∧ inv.role = .initHook typeName ∧
      inv.self = some i := by
  unfold starting at h
  split at h
  · next hook typeName self action args =>
    split at h
    · next hself => exact ⟨hook, _, typeName, rfl, rfl, hself⟩
    · exact absurd rfl h
  · exact absurd rfl h

end Control

namespace World

variable {w : World β} {i : InstanceId} {reply : Reply β}

/-- The next construct property is written, unless the one before was refused. -/
theorem continueConstructing_cons (hreply : ∀ e, reply ≠ .failed (.property e)) (name : String)
    (value : Value) (rest : List (String × Value)) :
    w.continueConstructing i ((name, value) :: rest) reply =
      .perform w (.setProperty i name value) [.constructing i rest] := by
  unfold continueConstructing
  split
  · next e => exact absurd rfl (hreply e)
  · rfl

/-- When all construct properties are written, the init hooks are to run. -/
theorem continueConstructing_nil (hreply : ∀ e, reply ≠ .failed (.property e)) {x : Instance β}
    (hx : w.instance? i = some x) :
    w.continueConstructing i [] reply =
      .proceed (w.modifyInstance i fun x => { x with constructing := false })
        [.initializing i x.ofClass.initHooks] := by
  unfold continueConstructing
  split
  · next e => exact absurd rfl (hreply e)
  · rw [hx]
    rfl

end World

/-- A callback that a construction starts: an init hook, or what a write starts. -/
def Invocation.Constructs (i : InstanceId) (inv : Invocation) : Prop :=
  inv.Reacts i ∨ inv.self = some i ∧ ∃ typeName, inv.role = .initHook typeName

namespace Machine

section
variable (client : Client σ β κ) (i : InstanceId) (c : ContextId) (m : Machine σ β κ)

/-- What the construction of an instance writes, or is told, in a state. -/
def enacted : List (Milestone β) :=
  match m.stack with
  | .operation f :: _ => if f.site? = some i then m.control.writing i else []
  | _ => []

/-- What is noted of one step. -/
def milestone : List (Milestone β) :=
  m.enacted i ++ m.control.starting i
    ++ (m.readied client i c).map fun s => .attaches s.kind s.priority s.work

/-- What is noted of so many steps: the writes of the construction of an instance, the init hooks of
the instance that start, and the ready hooks of it that anything attaches to a context. -/
def milestones (n : Nat) : List (Milestone β) :=
  (List.range n).flatMap fun k => (m.after client k).milestone client i c

theorem milestones_add (j k : Nat) : m.milestones client i c (j + k) =
    m.milestones client i c j ++ (m.after client j).milestones client i c k := by
  unfold milestones
  rw [List.range_add, List.flatMap_append, List.flatMap_map]
  refine congrArg (_ ++ List.flatMap · _) (funext fun k => ?_)
  rw [after_add]

theorem milestones_one : m.milestones client i c 1 = m.milestone client i c :=
  List.append_nil _

theorem milestones_succ (n : Nat) : m.milestones client i c (n + 1) =
    m.milestone client i c ++ (m.step client).milestones client i c n := by
  rw [Nat.add_comm, milestones_add, milestones_one]
  rfl

end

/-! ## Sites -/

section
variable {client : Client σ β κ} {m : Machine σ β κ} {i : InstanceId} {c : ContextId}
  {f : Frame β} {base : List (Layer β κ)}

theorem length_lt_of_top (hs : m.stack = .operation f :: base) :
    base.length < m.stack.length := by
  rw [hs]
  exact Nat.lt_succ_self _

theorem sites_operation (hsite : f.site? = some i) (stack : List (Layer β κ)) :
    sites (.operation f :: stack) = i :: sites stack := by
  cases f with
  | constructing j properties =>
    cases hsite
    rfl
  | initializing j hooks =>
    cases hsite
    rfl
  | _ => cases hsite

/-- Above the construction of an instance there is no other one of it. -/
theorem Reachable.site?_above (hreach : Reachable client m) (hsite : f.site? = some i)
    {above : List (Layer β κ)} (hs : m.stack = above ++ .operation f :: base) (hne : above ≠ []) :
    ∀ g below, m.stack = .operation g :: below → g.site? ≠ some i := by
  intro g below hs' hg
  obtain ⟨layer, above, rfl⟩ := List.exists_cons_of_ne_nil hne
  obtain ⟨rfl, -⟩ := List.cons.inj (hs'.symm.trans hs)
  have hnodup := hreach.sites.1
  rw [hs, sites_append, sites_operation hg, sites_operation hsite] at hnodup
  exact (List.nodup_append.mp hnodup).2.2 i List.mem_cons_self i List.mem_cons_self rfl

/-- An init hook starts above the construction of its instance only. -/
theorem Reachable.starting_eq_nil (hreach : Reachable client m)
    (htop : ∀ g below, m.stack = .operation g :: below → g.site? ≠ some i) :
    m.control.starting i = [] := by
  by_contra hstarts
  obtain ⟨hook, inv, typeName, hm, hrole, hself⟩ := Control.exists_of_starting hstarts
  cases hreach with
  | initial state program =>
    cases hm
    cases hrole
  | step hreach =>
    obtain ⟨j, hooks, below, hs, hj⟩ := of_starts_initHook hm hrole
    exact htop _ below hs (hj.symm.trans hself)

/-- Nothing is noted of a step that does not find the construction on top. -/
theorem milestone_eq_nil (hreach : Reachable client m)
    (htop : ∀ g below, m.stack = .operation g :: below → g.site? ≠ some i) :
    m.milestone client i c = [] := by
  unfold milestone enacted
  rw [readied_eq_nil hreach fun _ below _ hs => htop _ below hs rfl, hreach.starting_eq_nil htop,
    List.map_nil, List.append_nil, List.append_nil]
  split
  · next g below hs => exact if_neg (htop g below hs)
  · rfl

/-- What is noted of a step that finds the construction on top, unless it is the last. -/
theorem milestone_of_top (hreach : Reachable client m) (hs : m.stack = .operation f :: base)
    (hsite : f.site? = some i) (hlast : ∀ reply, m.control = .deliver reply → f ≠ .initializing i []) :
    m.milestone client i c = m.control.writing i ++ m.control.starting i := by
  have hready : m.readied client i c = [] := by
    refine readied_eq_nil hreach (fun reply below hm hs' => hlast reply hm ?_) c
    exact Layer.operation.inj (List.cons.inj (hs.symm.trans hs')).1
  unfold milestone enacted
  rw [hs, hready]
  dsimp only
  rw [if_pos hsite]
  exact List.append_nil _

end

/-- A reachable state in which an instance and its context are there. -/
structure Site (client : Client σ β κ) (m : Machine σ β κ) (i : InstanceId) (ofClass : Class β)
    (context : ContextId) : Prop where
  reach : Reachable client m
  houses : m.world.Houses i ofClass context
  context : m.world.timetable? context ≠ none

section
variable {client : Client σ β κ} {m : Machine σ β κ} {i : InstanceId} {c : ContextId}
  {f : Frame β} {base : List (Layer β κ)} {ofClass : Class β} {context : ContextId}

/-- The construction of an instance holds it. -/
theorem held_of_site (hsite : f.site? = some i) (hmem : .operation f ∈ m.stack) :
    .object i ∈ m.rootHandles client := by
  refine held_of_mem_stack hmem ?_
  cases f with
  | constructing j properties =>
    cases hsite
    exact List.mem_append_right _ List.mem_cons_self
  | initializing j hooks =>
    cases hsite
    exact List.mem_cons_self
  | _ => cases hsite

namespace Site

theorem step (h : m.Site client i ofClass context) (hsite : f.site? = some i)
    (hmem : .operation f ∈ (m.step client).stack) :
    (m.step client).Site client i ofClass context where
  reach := h.reach.step
  houses := houses_step h.reach h.houses (held_of_site hsite hmem)
  context := timetable?_step_ne_none client h.context

/-- The construction goes on. -/
theorem next (h : m.Site client i ofClass context) (hsite : f.site? = some i)
    (hs : (m.step client).stack = .operation f :: base) :
    (m.step client).Site client i ofClass context := by
  refine h.step hsite ?_
  rw [hs]
  exact List.mem_cons_self

/-- **While callbacks run above a construction, nothing is noted**, and the instance lives. -/
theorem busy (h : m.Site client i ofClass context) (hsite : f.site? = some i)
    (hsuffix : .operation f :: base <:+ m.stack) {n : Nat}
    (hbusy : ∀ j, j < n → base.length + 1 < (m.after client j).stack.length) :
    m.milestones client i c n = [] ∧ (m.after client n).Site client i ofClass context := by
  induction n generalizing m with
  | zero => exact ⟨rfl, h⟩
  | succ n ih =>
    obtain ⟨above, habove⟩ := hsuffix
    -- something is above the construction, and stays there for this step
    have hfirst := hbusy 0 (Nat.succ_pos n)
    have hne : above ≠ [] := by
      rintro rfl
      rw [after, ← habove] at hfirst
      exact Nat.lt_irrefl _ hfirst
    have hquiet : m.milestone client i c = [] :=
      milestone_eq_nil h.reach (h.reach.site?_above hsite habove.symm hne)
    obtain ⟨layer, above, rfl⟩ := List.exists_cons_of_ne_nil hne
    have hnext : .operation f :: base <:+ (m.step client).stack :=
      (List.suffix_append above _).trans (stack_step_cons client habove.symm)
    obtain ⟨hrest, hlater⟩ := ih (h.step hsite (hnext.mem List.mem_cons_self)) hnext
      fun j hj => by
        rw [after_succ]
        exact hbusy (j + 1) (Nat.succ_lt_succ hj)
    rw [milestones_succ, hquiet, hrest, ← after_succ]
    exact ⟨rfl, hlater⟩

end Site

end

/-! ## Passing milestones -/

/-- What is above some layers comes to its end, and what is noted of it fits the reply; or one of the
callbacks that it starts hangs, and what is noted until then is the beginning of a plan. -/
inductive Passes (client : Client σ β κ) (i : InstanceId) (c : ContextId) (m : Machine σ β κ)
    (base : List (Layer β κ)) (fits : Reply β → List (Milestone β) → Prop)
    (plan : List (Milestone β)) : Prop
  | ends (n : Nat) (reply : Reply β) (hfits : fits reply (m.milestones client i c n))
      (busy : ∀ j, j < n → base.length < (m.after client j).stack.length)
      (hs : (m.after client n).stack = base) (hc : (m.after client n).control = .deliver reply)
  | hangs (n : Nat) (callback : β) (inv : Invocation) (hcall : inv.Constructs i)
      (hplan : m.milestones client i c n <+: plan)
      (busy : ∀ j, j ≤ n → base.length < (m.after client j).stack.length)
      (h : (m.after client n).Hangs client callback inv)

section
variable {client : Client σ β κ} {m : Machine σ β κ} {i : InstanceId} {c : ContextId}
  {f : Frame β} {base : List (Layer β κ)} {ofClass : Class β} {context : ContextId}
  {fits fits' : Reply β → List (Milestone β) → Prop} {plan : List (Milestone β)}

namespace Passes

theorem mono (h : m.Passes client i c base fits plan)
    (hfits : ∀ reply log, fits reply log → fits' reply log) :
    m.Passes client i c base fits' plan := by
  cases h with
  | ends n reply hreply hbusy hs hc => exact .ends n reply (hfits _ _ hreply) hbusy hs hc
  | hangs n callback inv hcall hplan hbusy h => exact .hangs n callback inv hcall hplan hbusy h

/-- What is noted later comes behind what was noted so far. -/
theorem of_after (noted : List (Milestone β)) {n : Nat}
    (hnoted : m.milestones client i c n = noted)
    (hbusy : ∀ j, j < n → base.length < (m.after client j).stack.length)
    (h : (m.after client n).Passes client i c base (fun reply log => fits reply (noted ++ log)) plan) :
    m.Passes client i c base fits (noted ++ plan) := by
  cases h with
  | ends k reply hfits hlater hs hc =>
    refine .ends (n + k) reply ?_ (busy_add hbusy hlater) ?_ ?_
    · rwa [milestones_add, hnoted]
    · rwa [after_add]
    · rwa [after_add]
  | hangs k callback inv hcall hplan hlater h =>
    refine .hangs (n + k) callback inv hcall ?_ (fun j hj => ?_) (by rwa [after_add])
    · rwa [milestones_add, hnoted, List.prefix_append_right_inj]
    · exact busy_add (n := k + 1) hbusy (fun i hi => hlater i (Nat.le_of_lt_succ hi)) j
        (Nat.lt_succ_of_le hj)

theorem of_step (noted : List (Milestone β)) (hnoted : m.milestone client i c = noted)
    (hbusy : base.length < m.stack.length)
    (h : (m.step client).Passes client i c base (fun reply log => fits reply (noted ++ log)) plan) :
    m.Passes client i c base fits (noted ++ plan) := by
  refine of_after noted (n := 1) ((milestones_one client i c m).trans hnoted) (fun j hj => ?_) h
  obtain rfl := Nat.lt_one_iff.mp hj
  exact hbusy

end Passes

/-- What a construction has put on top of itself runs, and only the step that put it there is
noted. -/
theorem Site.inner (h : m.Site client i ofClass context) (hsite : f.site? = some i)
    (hs : m.stack = .operation f :: base) (hnext : m.stack <:+ (m.step client).stack) {n : Nat}
    (hbusy : ∀ j, j < n → m.stack.length < ((m.step client).after client j).stack.length) :
    m.milestones client i c (n + 1) = m.milestone client i c ∧
      (m.after client (n + 1)).Site client i ofClass context ∧
      ∀ j, j < n + 1 → base.length < (m.after client j).stack.length := by
  rw [hs] at hnext hbusy
  obtain ⟨hquiet, hsited⟩ := (h.step hsite (hnext.mem List.mem_cons_self)).busy (c := c) hsite hnext
    hbusy
  rw [milestones_succ, hquiet, ← after_succ]
  refine ⟨List.append_nil _, hsited, fun j hj => ?_⟩
  cases j with
  | zero => exact length_lt_of_top hs
  | succ j =>
    rw [← after_succ]
    exact Nat.lt_trans (Nat.lt_succ_self _) (hbusy j (Nat.lt_of_succ_lt_succ hj))

/-- A callback that a construction starts hangs or returns. -/
theorem Site.calls (h : m.Site client i ofClass context) (hsite : f.site? = some i)
    (hs : m.stack = .operation f :: base) {callback : β} {inv : Invocation}
    (hm : m.control = .invoke callback inv) (hrole : ∀ c task, inv.role ≠ .task c task) :
    m.Hangs client callback inv ∨ ∃ n outcome,
      (m.milestones client i c n = m.milestone client i c ∧
        (m.after client n).Site client i ofClass context ∧
        ∀ j, j < n → base.length < (m.after client j).stack.length) ∧
      (m.after client n).stack = m.stack ∧
      (m.after client n).control = .deliver (.returned outcome) := by
  rcases returns_or_hangs client hm hrole with hhangs | ⟨n, outcome, hbusy, hs', hc'⟩
  · exact .inl hhangs
  · cases n with
    | zero => cases hm.symm.trans hc'
    | succ n =>
      have hnext : m.stack <:+ (m.step client).stack := by
        rw [(step_fields client (advance_invoke client hm)).1]
        exact List.suffix_cons _ _
      refine .inr ⟨n + 1, outcome, h.inner hsite hs hnext fun j hj => ?_, hs', hc'⟩
      rw [after_succ]
      exact hbusy (j + 1) (Nat.succ_pos j) (Nat.succ_lt_succ hj)

/-! ### The hooks -/

/-- The next init hook starts. -/
theorem Site.starts (h : m.Site client i ofClass context) {typeName : String} {callback : β}
    {hooks : List (String × β)} {reply : Reply β} (hm : m.control = .deliver reply)
    (hs : m.stack = .operation (.initializing i ((typeName, callback) :: hooks)) :: base) :
    (m.step client).Site client i ofClass context ∧
      (m.step client).stack = .operation (.initializing i hooks) :: base ∧
      (m.step client).control = .invoke callback { role := .initHook typeName, self := some i } ∧
      (m.step client).milestone client i c = [.runs typeName callback] := by
  have hf : (m.step client).Follows
      (m.world.continueInitializing i ((typeName, callback) :: hooks)) base :=
    follows_resume client hm hs
  have hs' : (m.step client).stack = .operation (.initializing i hooks) :: base := hf.stack
  have hc' : (m.step client).control =
      .invoke callback { role := .initHook typeName, self := some i } := hf.control
  refine ⟨h.next rfl hs', hs', hc', ?_⟩
  rw [milestone_of_top h.reach.step hs' rfl (fun reply hc => nomatch hc'.symm.trans hc), hc']
  exact if_pos rfl

/-- After the last init hook the ready hooks are attached, and the instance is there. -/
theorem Site.attaches (h : m.Site client i ofClass context) {reply : Reply β}
    (hm : m.control = .deliver reply) (hreply : (Control.deliver reply).writing i = [])
    (hs : m.stack = .operation (.initializing i []) :: base) :
    m.milestone client i c =
        Milestone.ofHooks i [] (if c = context then ofClass.readyHooks else []) ∧
      (m.step client).stack = base ∧ (m.step client).control = .deliver (.object i) := by
  obtain ⟨hready, hs', hc'⟩ := readied_initializing h.reach h.houses h.context hm hs
  refine ⟨?_, hs', hc'⟩
  have henacted : m.enacted i = [] := by
    unfold enacted
    rw [hs, hm]
    exact (if_pos rfl).trans hreply
  have hattached := congrArg (List.map fun s : SourceKind × Priority × SourceWork β =>
    Milestone.attaches s.1 s.2.1 s.2.2) (hready c)
  rw [List.map_map] at hattached
  rw [milestone, henacted, hm]
  refine hattached.trans ?_
  unfold Milestone.ofHooks
  split
  · rw [List.map_map]
    rfl
  · rfl

/-- **When the properties are written, the init hooks run, and then the ready hooks are attached.** -/
theorem Site.initializes (h : m.Site client i ofClass context) {hooks : List (String × β)}
    {reply : Reply β} (hm : m.control = .deliver reply)
    (hreply : (Control.deliver reply).writing i = [])
    (hs : m.stack = .operation (.initializing i hooks) :: base) :
    m.Passes client i c base
      (fun reply log => reply = .object i ∧
        log = Milestone.ofHooks i hooks (if c = context then ofClass.readyHooks else []))
      (Milestone.ofHooks i hooks (if c = context then ofClass.readyHooks else [])) := by
  induction hooks generalizing m reply with
  | nil =>
    obtain ⟨hnoted, hs', hc'⟩ := h.attaches (c := c) hm hreply hs
    refine .ends 1 _ ⟨rfl, (milestones_one client i c m).trans hnoted⟩ (fun j hj => ?_) hs' hc'
    obtain rfl := Nat.lt_one_iff.mp hj
    exact length_lt_of_top hs
  | cons hook hooks ih =>
    obtain ⟨typeName, callback⟩ := hook
    have hfirst : m.milestone client i c = [] := by
      rw [milestone_of_top h.reach hs rfl (fun _ _ => nofun), hm, hreply]
      rfl
    obtain ⟨hsited, hs₁, hc₁, hstarts⟩ := h.starts (c := c) hm hs
    refine .of_step [] hfirst (length_lt_of_top hs) ?_
    -- the hook hangs, when nothing is noted yet, or it returns
    rcases hsited.calls (c := c) rfl hs₁ hc₁ (fun _ _ => nofun) with
      hhangs | ⟨n, outcome, ⟨hnoted, hlater, hbusy⟩, hs', hc'⟩
    · refine .hangs 0 callback _ (.inr ⟨rfl, typeName, rfl⟩) List.nil_prefix (fun j hj => ?_) hhangs
      obtain rfl := Nat.le_zero.mp hj
      exact length_lt_of_top hs₁
    · refine .of_after [.runs typeName callback] (hnoted.trans hstarts) hbusy ?_
      refine (ih hlater hc' rfl (hs'.trans hs₁)).mono fun reply log hlog => ?_
      refine ⟨hlog.1, ?_⟩
      rw [hlog.2]
      rfl

/-! ### The properties -/

/-- A write that a construction asks for. -/
theorem Site.writes (h : m.Site client i ofClass context) (hsite : f.site? = some i)
    (hs : m.stack = .operation f :: base) {name : String} {value : Value}
    (hm : m.control = .perform (.setProperty i name value)) :
    (∃ e, (m.step client).stack = m.stack ∧
      (m.step client).control = .deliver (.failed (.property e))) ∨
    (∃ n, (m.milestones client i c n = m.milestone client i c ∧
        (m.after client n).Site client i ofClass context ∧
        ∀ j, j < n → base.length < (m.after client j).stack.length) ∧
      (m.after client n).stack = m.stack ∧ (m.after client n).control = .deliver .done) ∨
    ∃ n callback inv, inv.Reacts i ∧ m.milestones client i c n = m.milestone client i c ∧
      (∀ j, j ≤ n → base.length < (m.after client j).stack.length) ∧
      (m.after client n).Hangs client callback inv := by
  obtain ⟨x, hx, -⟩ := h.houses
  cases hwrite : x.admitWrite m.world.isA name value with
  | error e =>
    have hfields := step_fields client (advance_refused client hm hx hwrite)
    exact .inl ⟨e, hfields.1, hfields.2.1⟩
  | ok write =>
    have hnext : m.stack <:+ (m.step client).stack :=
      ⟨_, (follows_perform client hm).stack.symm⟩
    cases concludes_write hm hx hwrite with
    | ends n reply hreply hbusy hs' hc' =>
      cases hreply
      rw [after_succ] at hs' hc'
      exact .inr (.inl ⟨n + 1, h.inner hsite hs hnext hbusy, hs', hc'⟩)
    | hangs n callback inv hcall hbusy hhangs =>
      have hnoted := (h.inner (c := c) hsite hs hnext fun j hj => hbusy j (Nat.le_of_lt hj)).1
      have hlonger := (h.inner (c := c) hsite hs hnext (n := n + 1) fun j hj =>
        hbusy j (Nat.le_of_lt_succ hj)).2.2
      rw [after_succ] at hhangs
      exact .inr (.inr ⟨n + 1, callback, inv, hcall, hnoted,
        fun j hj => hlonger j (Nat.lt_succ_of_le hj), hhangs⟩)

/-- The next construct property is to be written. -/
theorem Site.asks (h : m.Site client i ofClass context) {name : String} {value : Value}
    {properties : List (String × Value)} {reply : Reply β} (hm : m.control = .deliver reply)
    (hreply : ∀ e, reply ≠ .failed (.property e))
    (hs : m.stack = .operation (.constructing i ((name, value) :: properties)) :: base) :
    (m.step client).Site client i ofClass context ∧
      (m.step client).stack = .operation (.constructing i properties) :: base ∧
      (m.step client).control = .perform (.setProperty i name value) ∧
      (m.step client).milestone client i c = [.writes name value] := by
  have hf : (m.step client).Follows
      (m.world.continueConstructing i ((name, value) :: properties) reply) base :=
    follows_resume client hm hs
  rw [World.continueConstructing_cons hreply] at hf
  have hs' : (m.step client).stack = .operation (.constructing i properties) :: base := hf.stack
  have hc' : (m.step client).control = .perform (.setProperty i name value) := hf.control
  refine ⟨h.next rfl hs', hs', hc', ?_⟩
  rw [milestone_of_top h.reach.step hs' rfl (fun _ _ => nofun), hc']
  exact (List.append_nil _).trans (if_pos rfl)

/-- A construct property that is refused ends the construction. -/
theorem Site.refuses (h : m.Site client i ofClass context) {e : PropertyError}
    {properties : List (String × Value)} (hm : m.control = .deliver (.failed (.property e)))
    (hs : m.stack = .operation (.constructing i properties) :: base) :
    m.milestone client i c = [.refused e] ∧ (m.step client).stack = base ∧
      (m.step client).control = .deliver (.failed (.construct (.property e))) := by
  have hf : (m.step client).Follows
      (.reply m.world (.failed (.construct (.property e)))) base := follows_resume client hm hs
  refine ⟨?_, hf.stack, hf.control⟩
  rw [milestone_of_top h.reach hs rfl (fun _ _ => nofun), hm]
  rfl

/-- When all construct properties are written, the init hooks are to run. -/
theorem Site.completes (h : m.Site client i ofClass context) {reply : Reply β}
    (hm : m.control = .deliver reply) (hreply : ∀ e, reply ≠ .failed (.property e))
    (hs : m.stack = .operation (.constructing i []) :: base) :
    (m.step client).Site client i ofClass context ∧
      (m.step client).stack = .operation (.initializing i ofClass.initHooks) :: base ∧
      (m.step client).control = .deliver .proceed := by
  obtain ⟨x, hx, rfl, -⟩ := h.houses
  have hf : (m.step client).Follows (m.world.continueConstructing i [] reply) base :=
    follows_resume client hm hs
  rw [World.continueConstructing_nil hreply hx] at hf
  exact ⟨h.next rfl hf.stack, hf.stack, hf.control⟩

/-- **The construct properties are written one after the other**, up to the first one that is
refused. -/
theorem Site.constructs (h : m.Site client i ofClass context) {properties : List (String × Value)}
    {reply : Reply β} (hm : m.control = .deliver reply) (hreply : ∀ e, reply ≠ .failed (.property e))
    (hs : m.stack = .operation (.constructing i properties) :: base) :
    (m.step client).Passes client i c base
      (Construction.Unfolds i (Milestone.ofHooks i ofClass.initHooks
        (if c = context then ofClass.readyHooks else [])) properties)
      (Milestone.ofWrites properties ++ Milestone.ofHooks i ofClass.initHooks
        (if c = context then ofClass.readyHooks else [])) := by
  induction properties generalizing m reply with
  | nil =>
    obtain ⟨hsited, hs₁, hc₁⟩ := h.completes hm hreply hs
    refine (hsited.initializes hc₁ rfl hs₁).mono ?_
    rintro _ _ ⟨rfl, rfl⟩
    exact .made
  | cons property properties ih =>
    obtain ⟨name, value⟩ := property
    obtain ⟨hsited, hs₁, hc₁, hwrites⟩ := h.asks (c := c) hm hreply hs
    generalize m.step client = n at hsited hs₁ hc₁ hwrites
    -- the write is refused, or it is done, or a callback that it starts hangs
    rcases hsited.writes (c := c) rfl hs₁ hc₁ with ⟨e, hs₂, hc₂⟩ |
      ⟨k, ⟨hnoted, hlater, hbusy⟩, hs₂, hc₂⟩ | ⟨k, callback, inv, hcall, hnoted, hbusy, hhangs⟩
    · obtain ⟨hrefused, hs₃, hc₃⟩ :=
        (hsited.next rfl (hs₂.trans hs₁)).refuses (c := c) hc₂ (hs₂.trans hs₁)
      refine .ends 2 (.failed (.construct (.property e))) ?_ (fun j hj => ?_) hs₃ hc₃
      · rw [milestones_succ, milestones_one, hwrites, hrefused]
        exact .refused name value properties e
      · match j, hj with
        | 0, _ => exact length_lt_of_top hs₁
        | 1, _ => exact length_lt_of_top (m := n.step client) (hs₂.trans hs₁)
    · have hwritten : (n.after client k).milestone client i c = [.written] := by
        rw [milestone_of_top hlater.reach (hs₂.trans hs₁) rfl (fun _ _ => nofun), hc₂]
        rfl
      refine .of_after [.writes name value] (hnoted.trans hwrites) hbusy ?_
      refine .of_step [.written] hwritten (length_lt_of_top (hs₂.trans hs₁)) ?_
      refine (ih hlater hc₂ (fun _ => nofun) (hs₂.trans hs₁)).mono fun reply log hlog => ?_
      exact .written name value hlog
    · refine .hangs k callback inv (.inl hcall) ?_ hbusy hhangs
      rw [hnoted, hwrites]
      exact ⟨_, rfl⟩

/-! ## The contract -/

/-- What a command comes to is told with its answer; there is one unless a callback hangs. -/
theorem Passes.answers {command : Command β} (hm : m.control = .perform command)
    (hfirst : m.milestone client i c = [])
    (h : (m.step client).Passes client i c m.stack fits plan) :
    (∀ reply k, m.Answers client command reply k → fits reply (m.milestones client i c k)) ∧
      ((∃ reply k, m.Answers client command reply k) ∨
        ∃ n callback inv, inv.Constructs i ∧ m.milestones client i c n <+: plan ∧
          (m.after client n).Hangs client callback inv) := by
  have hshift (n : Nat) :
      m.milestones client i c (n + 1) = (m.step client).milestones client i c n := by
    rw [milestones_succ, hfirst, List.nil_append]
  cases h with
  | ends n reply hfits hbusy hs hc =>
    have hanswers := Answers.of_step hm hbusy hs hc
    refine ⟨fun reply' k hk => ?_, .inl ⟨reply, n + 1, hanswers⟩⟩
    obtain ⟨rfl, rfl⟩ := hanswers.unique hk
    rwa [hshift]
  | hangs n callback inv hcall hplan hbusy h =>
    refine ⟨fun reply k hk => absurd hk (h.not_answers hm hbusy reply k),
      .inr ⟨n + 1, callback, inv, hcall, ?_, ?_⟩⟩
    · rwa [hshift]
    · rwa [after_succ] at h

/-- A construction that is about to begin is not in progress. -/
theorem Reachable.site?_next (hreach : Reachable client m) :
    ∀ g below, m.stack = .operation g :: below → g.site? ≠ some ⟨m.world.nextInstance⟩ := by
  intro g below hs hg
  refine Nat.lt_irrefl m.world.nextInstance (hreach.sites.2 ⟨m.world.nextInstance⟩ ?_)
  rw [hs, sites_operation hg]
  exact List.mem_cons_self

section
variable {con : Construction β}

/-- An abstract class fails at once. -/
theorem fails_of_abstract (hreach : Reachable client m) (hm : m.control = .perform (.construct con))
    (hclass : con.ofClass.own.flags.isAbstract = true) :
    m.Answers client (.construct con) (.failed (.construct (.isAbstract con.ofClass.typeName))) 1 ∧
      m.Fails client (.construct (.isAbstract con.ofClass.typeName)) := by
  have hmove : m.advance client =
      { m with control := .deliver (.failed (.construct (.isAbstract con.ofClass.typeName))) } :=
    (advance_perform client hm).trans
      (congrArg (m.follow client m.stack) (m.world.construct_of_abstract hclass))
  have hfields := step_fields client hmove
  refine ⟨.of_perform hm (fun j hpos hj => ?_) (congrArg List.length hfields.1) hfields.2.1,
    hreach.fails hmove⟩
  omega

/-- The first child that is not declared ends a construction, with nothing done but the fields and
the children before it. -/
theorem ends_at_child (hreach : Reachable client m) (hm : m.control = .perform (.construct con))
    (hclass : con.ofClass.own.flags.isAbstract = false) {known others : List (String × InstanceId)}
    {name : String} {child : InstanceId} (hsplit : con.children = known ++ (name, child) :: others)
    (hknown : ∀ child ∈ known, con.ofClass.declaresChild child.1 = true)
    (hname : con.ofClass.declaresChild name = false) :
    (m.advance client).world = m.world.prepared con (con.presets known) ∧
      m.Answers client (.construct con)
        (.failed (.construct (.unknownChild con.ofClass.typeName name))) 2 ∧
      m.milestones client ⟨m.world.nextInstance⟩ c 2 = [] := by
  have hadvance : m.advance client = m.follow client m.stack (m.world.construct con) :=
    advance_perform client hm
  rw [m.world.construct_of_undeclared hclass hsplit hknown hname] at hadvance
  have hf := follows_of_advance client hadvance
  have hf₂ : ((m.step client).step client).Follows
      (.reply (m.step client).world
        (.failed (.construct (.unknownChild con.ofClass.typeName name)))) m.stack :=
    follows_resume client hf.control hf.stack
  refine ⟨congrArg Machine.world hadvance, ?_, ?_⟩
  · refine .of_perform hm (fun j hpos hj => ?_) (congrArg List.length hf₂.stack) hf₂.control
    obtain rfl : j = 1 := by omega
    show _ < (m.step client).stack.length
    rw [hf.stack]
    exact Nat.lt_succ_self _
  · rw [milestones_succ, milestones_one, milestone_eq_nil hreach hreach.site?_next,
      milestone_eq_nil hreach.step fun g below hs hg => ?_]
    · rfl
    · cases hf.stack.symm.trans hs
      cases hg

end

end

end Machine

/-- The instance that an operation replies. -/
def Control.made? : Control β → Option InstanceId
  | .deliver (.object i) => some i
  | _ => none

theorem Control.eq_of_made? {c : Control β} {i : InstanceId} (h : c.made? = some i) :
    c = .deliver (.object i) := by
  unfold made? at h
  split at h
  · cases h
    rfl
  · cases h

end ObjectSystem
