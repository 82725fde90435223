import Mathlib
import ObjectSystem.Proofs.Deadlines
import ObjectSystem.Proofs.Progressions
import ObjectSystem.Proofs.Rounds

/-!
# Iterations on schedule

A `Pace` is what an advance of a manual clock begins with, when all sources of the context are
timeouts whose callbacks do nothing but return a flow. `Pace.Reaches` says where it stands after
some steps: which callbacks have started and what they have answered, that all of this was on
schedule, and that the sources which are left have the next deadlines of their progressions.

The turn of a source adds one start (`Reaches.turn`), an iteration serves its whole lineup
(`Reaches.iteration`), and a run until idle makes one iteration if anything is pending
(`Reaches.runUntilIdle`).
-/

namespace ObjectSystem

variable {σ β κ : Type}

open Machine (Reachable)
open Source (remaining Precedes)

/-! ## What is noted -/

/-- What the callback that starts or goes on runs for. -/
def Control.role? : Control β → Option Role
  | .invoke _ inv => some inv.role
  | .continueTask c task _ => some (.task c task)
  | _ => none

/-- The operation that takes up what the callback of a source says. -/
def Frame.endsSource : Frame β → Bool
  | .sourceEnd .. => true
  | _ => false

namespace Machine

variable {client : Client σ β κ} {m : Machine σ β κ} {c : ContextId}

/-- The time of a context at which a callback starts or goes on with the next step. -/
def opening? (c : ContextId) (m : Machine σ β κ) : Option (Nat × Role) :=
  m.control.role?.map (m.time c, ·)

/-- What becomes of a source of a context whose callback has ended: whether it stays. -/
def verdict? (c : ContextId) (m : Machine σ β κ) : Option (SourceId × Bool) :=
  match m.control, m.stack with
  | .deliver (.returned outcome), .operation (.sourceEnd d id mayStay) :: _ =>
    if d = c then some (id, mayStay && outcome.stays) else none
  | _, _ => none

/-- No callback starts with the next step, and none of a source has just ended. -/
def Silent (m : Machine σ β κ) (c : ContextId) : Prop :=
  m.opening? c = none ∧ m.verdict? c = none

theorem silent_of_perform {command : Command β} (hm : m.control = .perform command) :
    m.Silent c := by
  simp [Silent, opening?, verdict?, Control.role?, hm]

theorem opening?_of_deliver {reply : Reply β} (hm : m.control = .deliver reply) :
    m.opening? c = none := by
  simp [opening?, Control.role?, hm]

theorem silent_of_resume {reply : Reply β} {f : Frame β} {stack : List (Layer β κ)}
    (hm : m.control = .deliver reply) (hs : m.stack = .operation f :: stack)
    (hf : f.endsSource = false) : m.Silent c := by
  refine ⟨opening?_of_deliver hm, ?_⟩
  unfold verdict?
  rw [hm, hs]
  split
  · next heq =>
      obtain rfl := Layer.operation.inj (List.cons.inj heq).1
      cases hf
  · rfl

end Machine

/-- The callback of a source does nothing but return a flow. -/
def Client.OnlyFlows (client : Client σ β κ) (c : ContextId) (id : SourceId) (callback : β) :
    Prop :=
  ∀ w v state, ∃ state' stays,
    client.resume v (client.start w state callback { role := .source c id }).1
        (client.start w state callback { role := .source c id }).2 .proceed =
      (state', .finish (.flow stays))

/-! ## The order of an iteration -/

theorem Source.runsBefore_iff {s t : Source β} : s.runsBefore t = true ↔
    s.priority.rank < t.priority.rank ∨ s.priority.rank = t.priority.rank ∧
      (s.readyAt < t.readyAt ∨ s.readyAt = t.readyAt ∧ s.id.number ≤ t.id.number) := by
  simp [runsBefore]

/-- What an iteration collects is in order. -/
theorem Timetable.pairwise_ready (t : Timetable β) : t.ready.Pairwise fun id id' =>
    ∃ s ∈ t.sources, ∃ q ∈ t.sources, s.id = id ∧ q.id = id' ∧ s.runsBefore q = true := by
  have htrans (a b c : Source β) (hab : a.runsBefore b = true) (hbc : b.runsBefore c = true) :
      a.runsBefore c = true := by
    rw [Source.runsBefore_iff] at *
    omega
  have htotal (a b : Source β) : (a.runsBefore b || b.runsBefore a) = true := by
    rw [Bool.or_eq_true, Source.runsBefore_iff, Source.runsBefore_iff]
    omega
  have hattached : ∀ s ∈ (t.queue.due t.now).filterMap t.timeout? ++
      t.sources.filter (·.isReadyIdle), s ∈ t.sources := by
    intro s hs
    rcases List.mem_append.mp hs with hs | hs
    · obtain ⟨e, -, htimeout⟩ := List.mem_filterMap.mp hs
      exact (mem_of_source? (timeout?_eq_some.mp htimeout).1).1
    · exact List.mem_of_mem_filter hs
  refine List.pairwise_map.mpr ((List.pairwise_mergeSort htrans htotal _).imp_of_mem
    fun hs hq hbefore => ?_)
  exact ⟨_, hattached _ (List.mem_mergeSort.mp hs), _, hattached _ (List.mem_mergeSort.mp hq), rfl,
    rfl, hbefore⟩

/-! ## Contexts without tasks -/

/-- What a state shows of a context with a manual clock and no tasks. -/
structure Machine.Shows (client : Client σ β κ) (c : ContextId) (m : Machine σ β κ)
    (x : MainContext β) : Prop where
  reach : Reachable client m
  context : m.world.context? c = some x
  manual : x.config.clock = .manual
  taskless : x.heldTasks = []

namespace Machine.Shows

variable {client : Client σ β κ} {c : ContextId} {m : Machine σ β κ} {x y : MainContext β}
  {stack : List (Layer β κ)}

theorem sound (h : Shows client c m x) :
    x.timetable.Sound (m.desk c).waiting (m.desk c).running :=
  (h.reach.desk c).present _ (World.timetable?_eq h.context)

theorem time (h : Shows client c m x) : m.time c = x.now :=
  Machine.time_eq (World.timetable?_eq h.context)

theorem step (h : Shows client c m x) (hctx : (m.advance client).world.context? c = some y)
    (hconfig : y.config = x.config) (htaskless : y.heldTasks = []) :
    Shows client c (m.step client) y where
  reach := h.reach.step
  context := Machine.context?_step hctx htaskless
  manual := hconfig ▸ h.manual
  taskless := htaskless

/-- A step of an operation. -/
theorem follow (h : Shows client c m x) {base : List (Layer β κ)} {p : Progress β}
    (hadvance : m.advance client = m.follow client base p)
    (hctx : p.world.context? c = some y) (hconfig : y.config = x.config)
    (htaskless : y.heldTasks = []) :
    Shows client c (m.step client) y ∧
      (m.step client).stack = p.frames.map .operation ++ base ∧
      (m.step client).control = p.control := by
  have hf := Machine.follows_of_advance client hadvance
  refine ⟨h.step ?_ hconfig htaskless, hf.stack, hf.control⟩
  rw [hadvance]
  exact hctx

/-! ### The turn of a source -/

/-- It begins. -/
theorem begins (h : Shows client c m x) {s : Source β} (hsource : s ∈ x.sources)
    (hstill : s.running = false) {callback : β} (hwork : s.work = .repeating callback)
    {ready : List SourceId} {worked : Bool} {reply : Reply β}
    (hs : m.stack = .operation (.iteration c (s.id :: ready) worked) :: stack)
    (hm : m.control = .deliver reply) :
    Shows client c (m.step client) (x.begun s.id) ∧
      (m.step client).stack = .operation (.sourceEnd c s.id true) ::
        .operation (.iteration c ready worked) :: stack ∧
      (m.step client).control = .invoke callback { role := .source c s.id } := by
  have hfound : x.source? s.id = some s := h.sound.source?_of_mem hsource
  have hbegin : (m.world.context? c).bind (·.beginRun s.id) =
      some (x.begun s.id, .repeating callback) := by
    rw [h.context, Option.bind_some, MainContext.beginRun, hfound]
    dsimp only
    rw [hstill, if_neg Bool.false_ne_true, hwork]
    rfl
  have hadvance : m.advance client = m.follow client stack (.invoke
      (m.world.setContext c (x.begun s.id)) callback { role := .source c s.id }
      [.sourceEnd c s.id true, .iteration c ready worked]) := by
    rw [Machine.advance_resume client hm hs]
    show m.follow client stack (m.world.continueIteration c (s.id :: ready) worked) = _
    simp only [World.continueIteration, hbegin]
    rfl
  exact h.follow hadvance ((World.context?_setContext m.world h.context).trans (if_pos rfl)) rfl
    h.taskless

/-- The callback starts and returns a flow. -/
theorem flows (h : Shows client c m x) {id : SourceId} {callback : β}
    (hflows : client.OnlyFlows c id callback)
    (hm : m.control = .invoke callback { role := .source c id }) :
    Shows client c (m.after client 2) x ∧
      (∃ rest inv, (m.after client 1).stack = .callback rest inv :: m.stack) ∧
      (m.after client 1).control = .deliver .proceed ∧ (m.after client 2).stack = m.stack ∧
      ∃ stays, (m.after client 2).control = .deliver (.returned (.flow stays)) := by
  have hadvance := Machine.advance_invoke client hm
  obtain ⟨hstack₁, hcontrol₁, hclient₁⟩ := Machine.step_fields client hadvance
  have h₁ : Shows client c (m.step client) x :=
    h.step (by rw [hadvance]; exact h.context) rfl h.taskless
  obtain ⟨state, stays, hresume⟩ := hflows m.world (m.step client).world m.client
  dsimp only at hclient₁
  rw [← hclient₁] at hresume
  have hadvance₁ := Machine.advance_finish client hcontrol₁ hstack₁ hresume
  obtain ⟨hstack₂, hcontrol₂, -⟩ := Machine.step_fields client hadvance₁
  exact ⟨h₁.step (by rw [hadvance₁]; exact h₁.context) rfl h.taskless, ⟨_, _, hstack₁⟩,
    hcontrol₁, hstack₂, stays, hcontrol₂⟩

/-- It ends. -/
theorem ends (h : Shows client c m x) {id : SourceId} {stays : Bool}
    (hs : m.stack = .operation (.sourceEnd c id true) :: stack)
    (hm : m.control = .deliver (.returned (.flow stays))) :
    Shows client c (m.step client) (x.endRun id stays) ∧ (m.step client).stack = stack ∧
      (m.step client).control = .deliver .proceed := by
  have hadvance : m.advance client = m.follow client stack
      (.proceed (m.world.modifyContext c (·.endRun id stays)) []) :=
    Machine.advance_resume client hm hs
  have hfields : (x.endRun id stays).config = x.config ∧
      (x.endRun id stays).heldTasks = x.heldTasks := by
    unfold MainContext.endRun
    split <;> exact ⟨rfl, rfl⟩
  refine h.follow hadvance ?_ hfields.1 (hfields.2.trans h.taskless)
  show (m.world.modifyContext c (·.endRun id stays)).context? c = _
  rw [World.context?_modifyContext, if_pos rfl, h.context]
  rfl

/-- **The turn of a source**: its callback starts and says whether it stays. -/
theorem turn (h : Shows client c m x) {s : Source β} (hsource : s ∈ x.sources)
    (hstill : s.running = false) {callback : β} (hwork : s.work = .repeating callback)
    (hflows : client.OnlyFlows c s.id callback) {ready : List SourceId} {worked : Bool}
    {reply : Reply β} (hs : m.stack = .operation (.iteration c (s.id :: ready) worked) :: stack)
    (hm : m.control = .deliver reply) :
    ∃ stays, Shows client c (m.after client 4) (x.serve s.id stays) ∧
      (m.after client 4).stack = .operation (.iteration c ready worked) :: stack ∧
      (m.after client 4).control = .deliver .proceed ∧
      m.log client (Machine.opening? c) 4 = [(x.now, .source c s.id)] ∧
      m.log client (Machine.verdict? c) 4 = [(s.id, stays)] ∧
      ∀ i, i < 4 → stack.length < (m.after client i).stack.length := by
  obtain ⟨h₁, hs₁, hm₁⟩ := h.begins hsource hstill hwork hs hm
  obtain ⟨h₃, ⟨rest, inv, hs₂⟩, hm₂, hs₃, stays, hm₃⟩ := h₁.flows hflows hm₁
  obtain ⟨h₄, hs₄, hm₄⟩ := h₃.ends (hs₃.trans hs₁) hm₃
  have hopening : ∀ i, i < 4 → i ≠ 1 → (m.after client i).opening? c = none := by
    intro i hi hne
    obtain rfl | rfl | rfl : i = 0 ∨ i = 2 ∨ i = 3 := by omega
    · exact Machine.opening?_of_deliver hm
    · exact Machine.opening?_of_deliver hm₂
    · exact Machine.opening?_of_deliver hm₃
  have hverdict : ∀ i, i < 4 → i ≠ 3 → (m.after client i).verdict? c = none := by
    intro i hi hne
    obtain rfl | rfl | rfl : i = 0 ∨ i = 1 ∨ i = 2 := by omega
    · exact (Machine.silent_of_resume hm hs rfl).2
    · show (m.step client).verdict? c = none
      rw [Machine.verdict?, hm₁]
    · show ((m.step client).after client 1).verdict? c = none
      rw [Machine.verdict?, hm₂]
  have hopened : (m.step client).opening? c = some (x.now, .source c s.id) := by
    unfold Machine.opening?
    rw [hm₁, h₁.time]
    rfl
  have hanswered : ((m.step client).after client 2).verdict? c = some (s.id, stays) := by
    unfold Machine.verdict?
    rw [hm₃, hs₃, hs₁]
    exact if_pos rfl
  refine ⟨stays, h₄, hs₄, hm₄,
    (Machine.log_eq_of_once (j := 1) (by decide) hopening).trans (congrArg Option.toList hopened),
    (Machine.log_eq_of_once (j := 3) (by decide) hverdict).trans (congrArg Option.toList hanswered),
    fun i hi => ?_⟩
  have hlength₀ : (m.after client 0).stack.length = stack.length + 1 := congrArg List.length hs
  have hlength₁ : (m.after client 1).stack.length = stack.length + 2 := congrArg List.length hs₁
  have hlength₂ : (m.after client 2).stack.length = stack.length + 3 :=
    (congrArg List.length hs₂).trans (congrArg (· + 1) hlength₁)
  have hlength₃ : (m.after client 3).stack.length = stack.length + 2 :=
    (congrArg List.length hs₃).trans hlength₁
  obtain rfl | rfl | rfl | rfl : i = 0 ∨ i = 1 ∨ i = 2 ∨ i = 3 := by omega
  all_goals omega

end Machine.Shows

/-! ## Paces -/

/-- What an advance of a clock begins with: attached timeouts of which none runs, whose callbacks
only return a flow. -/
structure Pace (σ β κ : Type) where
  client : Client σ β κ
  context : ContextId
  /-- The state in the beginning. -/
  origin : Machine σ β κ
  /-- The sources in the beginning. -/
  sources : List (Source β)
  nodup : (sources.map (·.id)).Nodup
  still : ∀ s ∈ sources, s.running = false
  pos : ∀ s ∈ sources, 0 < s.kind.delay
  work : ∀ s ∈ sources, ∃ callback, s.work = .repeating callback ∧
    client.OnlyFlows context s.id callback

namespace Pace

/-- The state after a number of steps. -/
def state (r : Pace σ β κ) (n : Nat) : Machine σ β κ :=
  r.origin.after r.client n

/-- The number of layers in the beginning. -/
def height (r : Pace σ β κ) : Nat :=
  r.origin.stack.length

/-- A start of a source of the context, as it is noted. -/
def opening (r : Pace σ β κ) (a : Start) : Nat × Role :=
  (a.time, .source r.context a.id)

/-- Where the advance stands after a number of steps, and what has started until then. -/
structure Reaches (r : Pace σ β κ) (n : Nat) (x : MainContext β) (l : List Start) : Prop
    extends Machine.Shows r.client r.context (r.state n) x where
  busy : ∀ i, 0 < i → i < n → r.height < (r.state i).stack.length
  openings : r.origin.log r.client (Machine.opening? r.context) n = l.map r.opening
  verdicts : r.origin.log r.client (Machine.verdict? r.context) n = l.map (·.answer)
  sources : x.sources = remaining r.sources l
  schedule : OnSchedule r.sources l

/-- In the beginning, nothing has started. -/
theorem Reaches.zero {r : Pace σ β κ} {x : MainContext β}
    (h : Machine.Shows r.client r.context r.origin x) (hsources : x.sources = r.sources) :
    r.Reaches 0 x [] where
  toShows := h
  busy i _ hi := absurd hi (Nat.not_lt_zero i)
  openings := rfl
  verdicts := rfl
  sources := hsources.trans (Source.remaining_nil r.sources).symm
  schedule := .nil

section
variable {r : Pace σ β κ} {n : Nat} {x y : MainContext β} {l : List Start} {s : Source β}
  {stack base : List (Layer β κ)}

theorem Reaches.of_mem (h : r.Reaches n x l) (hs : s ∈ x.sources) :
    s.running = false ∧ s.kind.isIdle = false ∧ 0 < s.kind.delay := by
  rw [h.sources] at hs
  obtain ⟨q, hq, -, rfl⟩ := Source.mem_remaining.mp hs
  have hpos := r.pos q hq
  refine ⟨r.still q hq, ?_, hpos⟩
  show q.kind.isIdle = false
  cases hkind : q.kind with
  | idle =>
      rw [hkind] at hpos
      cases hpos
  | timeout interval => rfl

/-- A step of an operation that starts nothing and leaves the sources as they are. -/
theorem Reaches.quiet {p : Progress β} (h : r.Reaches n x l)
    (hbusy : 0 < n → r.height < (r.state n).stack.length)
    (hsilent : (r.state n).Silent r.context)
    (hadvance : (r.state n).advance r.client = (r.state n).follow r.client base p)
    (hctx : p.world.context? r.context = some y) (hconfig : y.config = x.config)
    (hsources : y.sources = x.sources) (htaskless : y.heldTasks = []) :
    r.Reaches (n + 1) y l ∧ (r.state (n + 1)).stack = p.frames.map .operation ++ base ∧
      (r.state (n + 1)).control = p.control := by
  obtain ⟨hshows, hends⟩ := h.toShows.follow hadvance hctx hconfig htaskless
  refine ⟨⟨hshows, fun i hpos hi => ?_, ?_, ?_, hsources.trans h.sources, h.schedule⟩, hends⟩
  · rcases Nat.lt_or_eq_of_le (Nat.le_of_lt_succ hi) with hlt | rfl
    · exact h.busy i hpos hlt
    · exact hbusy hpos
  · rw [Machine.log_add, h.openings, Machine.log_one]
    exact (congrArg (_ ++ Option.toList ·) hsilent.1).trans (List.append_nil _)
  · rw [Machine.log_add, h.verdicts, Machine.log_one]
    exact (congrArg (_ ++ Option.toList ·) hsilent.2).trans (List.append_nil _)

/-- The same for an operation on top of the stack that goes on. -/
theorem Reaches.resume {p : Progress β} {f : Frame β} {reply : Reply β} (h : r.Reaches n x l)
    (hs : (r.state n).stack = .operation f :: stack) (hm : (r.state n).control = .deliver reply)
    (hheight : r.height ≤ stack.length) (hf : f.endsSource = false)
    (hp : f.resume (r.state n).world reply = p) (hctx : p.world.context? r.context = some y)
    (hconfig : y.config = x.config) (hsources : y.sources = x.sources)
    (htaskless : y.heldTasks = []) :
    r.Reaches (n + 1) y l ∧ (r.state (n + 1)).stack = p.frames.map .operation ++ stack ∧
      (r.state (n + 1)).control = p.control := by
  refine h.quiet (fun _ => ?_) (Machine.silent_of_resume hm hs hf)
    ((Machine.advance_resume r.client hm hs).trans (congrArg _ hp)) hctx hconfig hsources htaskless
  rw [hs]
  exact Nat.lt_succ_of_le hheight

/-- And for a command that begins. -/
theorem Reaches.perform {p : Progress β} {command : Command β} (h : r.Reaches n x l)
    (hm : (r.state n).control = .perform command)
    (hbusy : 0 < n → r.height < (r.state n).stack.length)
    (hp : (r.state n).world.perform command = p) (hctx : p.world.context? r.context = some y)
    (hconfig : y.config = x.config) (hsources : y.sources = x.sources)
    (htaskless : y.heldTasks = []) :
    r.Reaches (n + 1) y l ∧
      (r.state (n + 1)).stack = p.frames.map .operation ++ (r.state n).stack ∧
      (r.state (n + 1)).control = p.control :=
  h.quiet hbusy (Machine.silent_of_perform hm)
    ((Machine.advance_perform r.client hm).trans (congrArg _ hp)) hctx hconfig hsources htaskless

/-! ### Turns -/

/-- **The turn of a source** at its deadline: its callback starts and says whether it stays. -/
theorem Reaches.turn (h : r.Reaches n x l) (hs : s ∈ r.sources) (hstayed : s.stayed l = true)
    (hnow : (s.onward l).readyAt = x.now)
    (hlast : ∀ a ∈ l, Precedes r.sources a.event (x.now, s.id)) {ready : List SourceId}
    {worked : Bool} {reply : Reply β} (hstack : (r.state n).stack =
      .operation (.iteration r.context (s.id :: ready) worked) :: stack)
    (hm : (r.state n).control = .deliver reply) (hheight : r.height ≤ stack.length) :
    ∃ stays, r.Reaches (n + 4) (x.serve s.id stays) (l ++ [⟨x.now, s.id, stays⟩]) ∧
      (r.state (n + 4)).stack = .operation (.iteration r.context ready worked) :: stack ∧
      (r.state (n + 4)).control = .deliver .proceed := by
  obtain ⟨callback, hwork, hflows⟩ := r.work s hs
  have hmem : s.onward l ∈ x.sources :=
    h.sources ▸ Source.mem_remaining.mpr ⟨s, hs, hstayed, rfl⟩
  obtain ⟨stays, hshows, hstack', hm', hopened, hanswered, hhigh⟩ :=
    h.toShows.turn hmem (r.still s hs) hwork hflows hstack hm
  refine ⟨stays, ⟨hshows, fun i hpos hi => ?_, ?_, ?_, ?_, ?_⟩, hstack', hm'⟩
  · rcases Nat.lt_or_ge i n with hlt | hge
    · exact h.busy i hpos hlt
    · obtain ⟨j, rfl⟩ := Nat.exists_eq_add_of_le hge
      rw [state, Machine.after_add]
      exact Nat.lt_of_le_of_lt hheight (hhigh j (by omega))
  · rw [Machine.log_add, h.openings, List.map_append]
    exact congrArg (_ ++ ·) hopened
  · rw [Machine.log_add, h.verdicts, List.map_append]
    exact congrArg (_ ++ ·) hanswered
  · exact MainContext.sources_serve r.nodup r.still h.sources hs (r.pos s hs) hnow stays
  · rw [← hnow] at hlast ⊢
    exact .start h.schedule hs hstayed stays hlast

/-! ### Iterations -/

/-- What is left when an iteration has served some sources: all deadlines are ahead. -/
structure Served (time : Nat) (ready : List SourceId) (y : MainContext β) (new : List Start) :
    Prop where
  now : y.now = time
  ids : new.map (·.id) = ready
  times : ∀ a ∈ new, a.time = time
  ahead : ∀ s ∈ y.sources, y.now < s.readyAt

/-- Where nothing has been collected, nothing is served. -/
theorem Served.eq_nil {time : Nat} {ready : List SourceId} {new : List Start}
    (h : Served time ready y new) (hready : ready = []) : new = [] :=
  List.map_eq_nil_iff.mp (h.ids.trans hready)

/-- The turns of an iteration serve its lineup. -/
theorem Reaches.iteration {ready : List SourceId} (h : r.Reaches n x l)
    (hlineup : Lineup r.sources x.now l ready) {worked : Bool} {reply : Reply β}
    (hs : (r.state n).stack = .operation (.iteration r.context ready worked) :: stack)
    (hm : (r.state n).control = .deliver reply) (hheight : r.height ≤ stack.length) :
    ∃ k y new, r.Reaches k y (l ++ new) ∧ Served x.now ready y new ∧
      y.tasksReady = x.tasksReady ∧ (r.state k).stack = stack ∧
      (r.state k).control = .deliver (.flag worked) := by
  induction ready generalizing n x l reply with
  | nil =>
      obtain ⟨h₁, hs₁, hm₁⟩ := h.resume hs hm hheight rfl
        (p := .reply (r.state n).world (.flag worked)) rfl h.context rfl rfl h.taskless
      refine ⟨n + 1, x, [], (List.append_nil l).symm ▸ h₁,
        ⟨rfl, rfl, fun _ ha => (by cases ha), fun s hmem => ?_⟩, rfl, hs₁, hm₁⟩
      rw [h.sources] at hmem
      obtain ⟨q, hq, hstayed, rfl⟩ := Source.mem_remaining.mp hmem
      exact (hlineup.ahead q hq hstayed).resolve_left List.not_mem_nil
  | cons id ready ih =>
      obtain ⟨s, hsource, rfl, hstayed, hnow⟩ := hlineup.attached id List.mem_cons_self
      obtain ⟨stays, h₄, hs₄, hm₄⟩ := h.turn hsource hstayed hnow
        (fun a ha => hlineup.later a ha s.id List.mem_cons_self) hs hm hheight
      obtain ⟨-, htime, -, htasks⟩ := MainContext.fields_serve x s.id stays
      obtain ⟨k, y, new, hreaches, hserved, hready, hends⟩ := ih h₄
        (htime.symm ▸ hlineup.start r.nodup r.pos stays) hs₄ hm₄
      refine ⟨k, y, ⟨x.now, s.id, stays⟩ :: new, ?_, ⟨hserved.now.trans htime,
        congrArg (s.id :: ·) hserved.ids, fun a ha => ?_, hserved.ahead⟩, hready.trans htasks,
        hends⟩
      · rw [← List.append_cons] at hreaches
        exact hreaches
      · rcases List.mem_cons.mp ha with rfl | ha
        · rfl
        · exact (hserved.times a ha).trans htime

/-- Before an iteration, no deadline has been missed, all timeouts wait in the queue, and what is
due has not started at this time. -/
structure Poised (x : MainContext β) (l : List Start) : Prop where
  due : ∀ s ∈ x.sources, x.now ≤ s.readyAt
  armed : ∀ s ∈ x.sources, x.timetable.Armed s
  before : ∀ s ∈ x.sources, s.readyAt = x.now → ∀ a ∈ l, a.time < x.now

/-- Where all deadlines are ahead, all timeouts wait in the queue. -/
theorem Reaches.poised (h : r.Reaches n x l) (hahead : ∀ s ∈ x.sources, x.now < s.readyAt) :
    Poised x l := by
  refine ⟨fun s hs => Nat.le_of_lt (hahead s hs), fun s hs => ?_, fun s hs hnow => ?_⟩
  · obtain ⟨hstill, hkind, -⟩ := h.of_mem hs
    refine h.sound.armed_of_at_rest hs hkind (fun hwaiting => ?_) hstill
    -- what waits for its turn is due
    have hsource : (r.state n).source? r.context s.id = some s :=
      (Machine.source?_eq (World.timetable?_eq h.context) s.id).trans (h.sound.source?_of_mem hs)
    have hdue := h.reach.due_of_waiting hwaiting hsource hkind
    rw [h.time] at hdue
    exact absurd (hahead s hs) (Nat.not_lt.mpr hdue)
  · exact absurd hnow (Nat.ne_of_gt (hahead s hs))

theorem Reaches.collects_iff (h : r.Reaches n x l) (hpoised : Poised x l) (hs : s ∈ x.sources) :
    x.timetable.Collects s ↔ s.readyAt = x.now := by
  obtain ⟨hstill, hkind, -⟩ := h.of_mem hs
  constructor
  · intro hcollects
    exact Nat.le_antisymm (hcollects.due hkind).1.2 (hpoised.due s hs)
  · intro hnow
    exact .inr ⟨⟨hpoised.armed s hs, Nat.le_of_eq hnow⟩, hstill⟩

/-- A timeout whose deadline has come is collected. -/
theorem Reaches.mem_ready (h : r.Reaches n x l) (hpoised : Poised x l) (hs : s ∈ x.sources)
    (hnow : s.readyAt = x.now) : s.id ∈ x.timetable.ready :=
  Timetable.mem_ready h.sound.nodup hs ((h.collects_iff hpoised hs).mpr hnow)

/-- Where all deadlines are ahead, nothing is collected. -/
theorem Reaches.ready_of_ahead (h : r.Reaches n x l) (hahead : ∀ s ∈ x.sources, x.now < s.readyAt) :
    x.timetable.ready = [] := by
  refine List.eq_nil_iff_forall_not_mem.mpr fun id hid => ?_
  obtain ⟨s, hs, hcollects, -⟩ := Timetable.collects_of_mem_ready hid
  have hnow := (h.collects_iff (h.poised hahead) hs).mp hcollects
  exact Nat.ne_of_gt (hahead s hs) hnow

/-- What an iteration collects is in the order of starts. -/
theorem Reaches.pairwise_ready (h : r.Reaches n x l) (hpoised : Poised x l) :
    x.timetable.ready.Pairwise fun id id' => Precedes r.sources (x.now, id) (x.now, id') := by
  refine (x.timetable.pairwise_ready.and h.sound.nodup_ready).imp_of_mem
    fun hid hid' ⟨⟨s, hs, t, ht, hsid, htid, hbefore⟩, hne⟩ => ?_
  subst hsid htid
  have hdue {q : Source β} (hq : q ∈ x.sources) (hready : q.id ∈ x.timetable.ready) :
      q.readyAt = x.now := by
    obtain ⟨p, hp, hcollects, hpid⟩ := Timetable.collects_of_mem_ready hready
    obtain rfl := h.sound.eq_of_id hp hq hpid
    exact (h.collects_iff hpoised hq).mp hcollects
  have hnows := hdue hs hid
  have hnowt := hdue ht hid'
  have hnumber : s.id.number ≠ t.id.number := fun heq => hne (by
    cases hs : s.id
    cases ht : t.id
    simp_all)
  have hsources := h.sources
  change x.timetable.sources = _ at hsources
  rw [hsources] at hs ht
  obtain ⟨p, hp, -, rfl⟩ := Source.mem_remaining.mp hs
  obtain ⟨q, hq, -, rfl⟩ := Source.mem_remaining.mp ht
  refine .inr ⟨rfl, p, hp, q, hq, rfl, rfl, ?_⟩
  rw [Source.runsBefore_iff] at hbefore
  have hsame : (p.onward l).readyAt = (q.onward l).readyAt := hnows.trans hnowt.symm
  change p.priority.rank < q.priority.rank ∨ p.priority.rank = q.priority.rank ∧
    ((p.onward l).readyAt < (q.onward l).readyAt ∨ (p.onward l).readyAt = (q.onward l).readyAt ∧
      p.id.number ≤ q.id.number) at hbefore
  change p.id.number ≠ q.id.number at hnumber
  omega

/-- What an iteration collects is lined up. -/
theorem Reaches.lineup (h : r.Reaches n x l) (hpoised : Poised x l) :
    Lineup r.sources x.now l x.timetable.ready := by
  refine ⟨fun id hid => ?_, h.pairwise_ready hpoised, fun a ha id hid => ?_,
    fun s hs hstayed => ?_⟩
  · obtain ⟨q, hq, hcollects, rfl⟩ := Timetable.collects_of_mem_ready hid
    have hnow := (h.collects_iff hpoised hq).mp hcollects
    have hmem : q ∈ remaining r.sources l := h.sources ▸ hq
    obtain ⟨s, hs, hstayed, rfl⟩ := Source.mem_remaining.mp hmem
    exact ⟨s, hs, rfl, hstayed, hnow⟩
  · obtain ⟨q, hq, hcollects, -⟩ := Timetable.collects_of_mem_ready hid
    exact .inl (hpoised.before q hq ((h.collects_iff hpoised hq).mp hcollects) a ha)
  · have hmem : s.onward l ∈ x.sources :=
      h.sources ▸ Source.mem_remaining.mpr ⟨s, hs, hstayed, rfl⟩
    rcases Nat.lt_or_eq_of_le (hpoised.due _ hmem) with hlt | hnow
    · exact .inr hlt
    · exact .inl (h.mem_ready (s := s.onward l) hpoised hmem hnow.symm)

theorem Poised.congr (h : Poised x l) (htimes : y.timetable = x.timetable) : Poised y l := by
  have hsources : y.sources = x.sources := congrArg Timetable.sources htimes
  have hnow : y.now = x.now := congrArg Timetable.now htimes
  refine ⟨?_, ?_, ?_⟩
  · rw [hsources, hnow]
    exact h.due
  · rw [hsources, htimes]
    exact h.armed
  · rw [hsources, hnow]
    exact h.before

/-- The sources are collected and have their turns. -/
theorem Reaches.collect (h : r.Reaches n x l) (hpoised : Poised x l) {polled : Bool}
    {reply : Reply β} (hs : (r.state n).stack = .operation (.collect r.context polled) :: stack)
    (hm : (r.state n).control = .deliver reply) (hheight : r.height ≤ stack.length) :
    ∃ k y new, r.Reaches k y (l ++ new) ∧ Served x.now x.timetable.ready y new ∧
      y.tasksReady = x.tasksReady ∧ (r.state k).stack = stack ∧
      (r.state k).control = .deliver (.flag (polled || !x.timetable.ready.isEmpty)) := by
  have hcollect : (Frame.collect r.context polled).resume (r.state n).world reply =
      .proceed ((r.state n).world.setContext r.context x.collectReady.1)
        [.iteration r.context x.timetable.ready (polled || !x.timetable.ready.isEmpty)] := by
    show (r.state n).world.collect r.context polled = _
    simp only [World.collect, h.context]
    rfl
  obtain ⟨h₁, hs₁, hm₁⟩ := h.resume (y := x.collectReady.1) hs hm hheight rfl hcollect
    ((World.context?_setContext _ h.context).trans (if_pos rfl)) rfl rfl h.taskless
  exact h₁.iteration (h.lineup hpoised) hs₁ hm₁ hheight

/-- **An iteration** serves what is due, and answers whether anything was pending. -/
theorem Reaches.iterate (h : r.Reaches n x l) (hpoised : Poised x l)
    (hm : (r.state n).control = .perform (.iterate r.context))
    (hbusy : r.height < (r.state n).stack.length) :
    ∃ k y new, r.Reaches k y (l ++ new) ∧ Served x.now x.timetable.ready y new ∧
      y.tasksReady = false ∧ (r.state k).stack = (r.state n).stack ∧
      (r.state k).control = .deliver (.flag x.pending) := by
  have hpending : x.pending = (x.tasksReady || !x.timetable.ready.isEmpty) :=
    Desk.Sound.pending_eq h.sound
  rw [hpending]
  cases hready : x.tasksReady with
  | false =>
      have hiterate : (r.state n).world.perform (.iterate r.context) =
          .proceed (r.state n).world [.collect r.context false] := by
        show (r.state n).world.iterate r.context = _
        unfold World.iterate
        rw [h.context]
        dsimp only
        rw [MainContext.beginPass, hready, if_neg Bool.false_ne_true]
      obtain ⟨h₁, hs₁, hm₁⟩ := h.perform hm (fun _ => hbusy) hiterate h.context rfl rfl h.taskless
      obtain ⟨k, y, new, hreaches, hserved, htasks, hends⟩ :=
        h₁.collect hpoised hs₁ hm₁ (Nat.le_of_lt hbusy)
      exact ⟨k, y, new, hreaches, hserved, htasks.trans hready, hends⟩
  | true =>
      -- without tasks, the pass only takes back the request for it
      obtain ⟨x₁, hbegin, htimes₁, hheld₁, hready₁⟩ :=
        MainContext.beginPass_of_taskless h.taskless hready
      have hiterate : (r.state n).world.perform (.iterate r.context) =
          .proceed ((r.state n).world.setContext r.context x₁)
            [.pass { context := r.context }, .collect r.context true] := by
        show (r.state n).world.iterate r.context = _
        unfold World.iterate
        rw [h.context]
        dsimp only
        rw [hbegin]
      obtain ⟨h₁, hs₁, hm₁⟩ := h.perform hm (fun _ => hbusy) hiterate
        ((World.context?_setContext _ h.context).trans (if_pos rfl))
        (congrArg Timetable.config htimes₁) (congrArg Timetable.sources htimes₁) hheld₁
      obtain ⟨v, x₂, hpass, hctx₂, -, htimes₂, hheld₂, hready₂⟩ :=
        World.beginRound_of_taskless (p := { context := r.context }) h₁.context hheld₁
      obtain ⟨h₂, hs₂, hm₂⟩ := h₁.resume hs₁ hm₁ (Nat.le_succ_of_le (Nat.le_of_lt hbusy))
        rfl hpass hctx₂ (congrArg Timetable.config htimes₂)
        (congrArg Timetable.sources htimes₂) hheld₂
      have htimes : x₂.timetable = x.timetable := htimes₂.trans htimes₁
      have hnow : x₂.now = x.now := congrArg Timetable.now htimes
      obtain ⟨k, y, new, hreaches, hserved, htasks, hends⟩ :=
        h₂.collect (hpoised.congr htimes) hs₂ hm₂ (Nat.le_of_lt hbusy)
      rw [htimes, hnow] at hserved
      rw [htimes] at hends
      exact ⟨k, y, new, hreaches, hserved, htasks.trans (hready₂.trans hready₁), hends⟩

/-! ### Runs until idle -/

/-- Where all deadlines are ahead, at most a pass over the tasks is pending. -/
theorem Reaches.pending_of_ahead (h : r.Reaches n x l)
    (hahead : ∀ s ∈ x.sources, x.now < s.readyAt) : x.pending = x.tasksReady := by
  rw [Desk.Sound.pending_eq h.sound]
  show (x.tasksReady || !x.timetable.ready.isEmpty) = x.tasksReady
  rw [h.ready_of_ahead hahead]
  exact Bool.or_false _

/-- **A run until idle** makes one iteration if anything is pending, and none otherwise. -/
theorem Reaches.runUntilIdle (h : r.Reaches n x l) (hpoised : Poised x l)
    (hm : (r.state n).control = .perform (.runUntilIdle r.context))
    (hbusy : r.height < (r.state n).stack.length) :
    ∃ k y new, r.Reaches k y (l ++ new) ∧ Served x.now x.timetable.ready y new ∧
      y.tasksReady = false ∧ (r.state k).stack = (r.state n).stack ∧
      (r.state k).control = .deliver (.count x.pending.toNat) := by
  cases hpending : x.pending with
  | false =>
      have hnothing := (Desk.Sound.pending_eq h.sound).symm.trans hpending
      rw [Bool.or_eq_false_iff, Bool.not_eq_false', List.isEmpty_iff] at hnothing
      obtain ⟨htasks, hready⟩ := hnothing
      obtain ⟨h₁, hs₁, hm₁⟩ := h.perform hm (fun _ => hbusy)
        (World.drain_of_idle h.context hpending) h.context rfl rfl h.taskless
      refine ⟨n + 1, x, [], (List.append_nil l).symm ▸ h₁,
        ⟨rfl, hready.symm, fun _ ha => (by cases ha), fun s hmem => ?_⟩, htasks, hs₁, hm₁⟩
      refine Nat.lt_of_le_of_ne (hpoised.due s hmem) fun hnow => ?_
      have hcollected := h.mem_ready hpoised hmem hnow.symm
      rw [hready] at hcollected
      cases hcollected
  | true =>
      obtain ⟨h₁, hs₁, hm₁⟩ := h.perform hm (fun _ => hbusy)
        (World.drain_of_pending ⟨x, h.context, hpending⟩) h.context rfl rfl h.taskless
      obtain ⟨k, y, new, hreaches, hserved, htasks, hs₂, hm₂⟩ := h₁.iterate hpoised hm₁
        (by rw [hs₁]; exact Nat.lt_succ_of_lt hbusy)
      rw [hpending] at hm₂
      have hidle := (hreaches.pending_of_ahead hserved.ahead).trans htasks
      obtain ⟨h₃, hs₃, hm₃⟩ := hreaches.resume (hs₂.trans hs₁) hm₂ (Nat.le_of_lt hbusy) rfl
        (World.drain_of_idle hreaches.context hidle) hreaches.context rfl rfl hreaches.taskless
      exact ⟨k + 1, y, new, h₃, hserved, htasks, hs₃, hm₃⟩

end

end Pace

end ObjectSystem
