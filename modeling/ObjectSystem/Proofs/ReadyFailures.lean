import ObjectSystem.Proofs.Alike
import ObjectSystem.Proofs.Hosting
import ObjectSystem.Proofs.ReadyHooks

/-!
# Failures of ready hooks are only reported

A ready hook that fails or panics, or whose task does, is reported under the name of the type that
declares it, and nothing else is ever reported (`Machine.Reachable.report?_step`). To say that the
report is all that a failure does, a client is run with a log of its own, which its callbacks do not
see (`Client.recording`). The log has no influence on the run (`Machine.after_withLog`), and a hook
that fails leaves everything as if it had succeeded, with one more entry in the log
(`Machine.after_of_failing`).

A hook that yields a task is reported later, when the callback of the task ends. The task bears the
name of the declaring type all the time (`Machine.Reachable.declarer_of_yield`).

`ready_bookkeeping_exact` is the contract: it puts these together with the records of
`Machine.Reachable.waitingFor_perm` and the starts of `Machine.readyStarts_subperm` and
`Machine.Reachable.starts_of_pending`.
-/

namespace ObjectSystem

variable {σ β κ : Type}

open Machine (Reachable)

/-! ## Ready hooks that fail -/

/-- The type that declares the ready hook which the callback of an invocation belongs to. A task is
found in the set of the pass that polls it. -/
def World.declarer? (w : World β) (inv : Invocation) : Option String :=
  match inv.role with
  | .ready typeName => some typeName
  | .readyTask typeName => some typeName
  | .task c id =>
    ((w.context? c).bind fun x => x.passTasks.find? id).bind fun task =>
      task.owner.map (·.typeName)
  | _ => none

namespace Frame

variable {w : World β} {frame : Frame β} {inv : Invocation}

theorem declarer?_of_isDeaf (h : frame.isDeaf = true) (w : World β) : frame.declarer? w = none := by
  cases frame <;> first | rfl | cases h

/-- An operation reports the callback that it runs under the name of the declaring type. -/
theorem Hosts.declarer? (h : frame.Hosts w inv) : frame.declarer? w = w.declarer? inv := by
  unfold Hosts at h
  unfold World.declarer?
  cases hrole : inv.role with
  | program =>
    rw [hrole] at h
    cases h
  | ready typeName =>
    rw [hrole] at h
    obtain rfl := h
    rfl
  | readyTask typeName =>
    rw [hrole] at h
    obtain ⟨c, owner, rfl, rfl, -⟩ := h
    rfl
  | task c id =>
    rw [hrole] at h
    obtain ⟨p, rfl, rfl, hcurrent⟩ := h
    unfold Frame.declarer?
    dsimp only
    rw [hcurrent, Option.bind_some]
  | _ =>
    rw [hrole] at h
    exact declarer?_of_isDeaf h w

end Frame

namespace Machine

/-- The callback that ends with the next step, and how it ends. -/
def ends? (client : Client σ β κ) (m : Machine σ β κ) : Option (Invocation × Outcome β) :=
  match m.control, m.stack with
  | .deliver reply, .callback rest inv :: _ =>
    match (client.resume m.world m.client rest reply).2 with
    | .finish outcome => some (inv, outcome)
    | _ => none
  | _, _ => none

/-- The failure of a ready hook, or of a task that one has yielded, whose callback ends with the next
step. -/
def failing? (client : Client σ β κ) (m : Machine σ β κ) : Option ReadyFailure :=
  (m.ends? client).bind fun (inv, outcome) =>
    ((m.step client).world.declarer? inv).bind fun typeName =>
      outcome.failure?.map fun text => { typeName, text }

/-- What the next step reports. -/
def report? (m : Machine σ β κ) : Option ReadyFailure :=
  match m.control, m.stack with
  | .perform command, _ => (m.world.perform command).report
  | .deliver reply, .operation frame :: _ => (frame.resume m.world reply).report
  | _, _ => none

section
variable {client : Client σ β κ} {m : Machine σ β κ} {inv : Invocation} {outcome : Outcome β}

theorem of_ends? (h : m.ends? client = some (inv, outcome)) :
    ∃ reply rest stack state, m.control = .deliver reply ∧ m.stack = .callback rest inv :: stack ∧
      client.resume m.world m.client rest reply = (state, .finish outcome) := by
  unfold ends? at h
  split at h
  · next reply rest inv' stack hm hs =>
    split at h
    · next outcome' hfinish =>
      obtain ⟨rfl, rfl⟩ := Prod.mk.inj (Option.some.inj h)
      exact ⟨reply, rest, stack, _, hm, hs, Prod.ext rfl hfinish⟩
    · cases h
  · cases h

theorem ends?_of_finish {reply : Reply β} {rest : κ} {stack : List (Layer β κ)} {state : σ}
    (hm : m.control = .deliver reply) (hs : m.stack = .callback rest inv :: stack)
    (hresume : client.resume m.world m.client rest reply = (state, .finish outcome)) :
    m.ends? client = some (inv, outcome) := by
  unfold ends?
  simp only [hm, hs, hresume]

theorem advance_callback {reply : Reply β} {rest : κ} {stack : List (Layer β κ)}
    (hm : m.control = .deliver reply) (hs : m.stack = .callback rest inv :: stack) :
    m.advance client = { m with client := (client.resume m.world m.client rest reply).1 }.move stack
      inv (client.resume m.world m.client rest reply).2 := by
  obtain ⟨world, state, layers, suspended, control⟩ := m
  obtain rfl : control = _ := hm
  obtain rfl : layers = _ := hs
  rfl

/-- Only a move that ends a callback has the end of one told. -/
theorem finish_of_returned {stack : List (Layer β κ)} {next : Move β κ}
    (h : (m.move stack inv next).control = .deliver (.returned outcome)) :
    next = .finish outcome := by
  cases next with
  | finish other =>
    obtain rfl : other = outcome := by simpa [move] using h
    rfl
  | command command rest => cases h
  | pause rest => cases h
  | await event rest =>
    simp only [move, awaitEvent] at h
    split at h
    · split at h <;> cases h
    · cases h

/-- What a callback ends with is told to the operation that runs it. -/
theorem Reachable.of_ends? (hreach : Reachable client m)
    (h : m.ends? client = some (inv, outcome)) :
    (m.step client).control = .deliver (.returned outcome) ∧
      (inv.role = .program ∧ (m.step client).stack = [] ∨
        ∃ frame stack, (m.step client).stack = .operation frame :: stack ∧
          frame.Hosts (m.step client).world inv) := by
  obtain ⟨reply, rest, stack, state, hm, hs, hresume⟩ := Machine.of_ends? h
  have hadvance := advance_finish client hm hs hresume
  have hsettled := hreach.hosting.stack
  rw [hs] at hsettled
  have hsits := hsettled.1.mono hreach.entrusts
  rw [control_step, stack_step, hadvance]
  refine ⟨rfl, ?_⟩
  cases stack with
  | nil => exact .inl ⟨hsits, rfl⟩
  | cons layer stack =>
    cases layer with
    | callback rest other => cases hsits
    | operation frame => exact .inr ⟨frame, stack, rfl, hsits⟩

theorem Reachable.hosts_of_ends? (hreach : Reachable client m)
    (h : m.ends? client = some (inv, outcome)) (hrole : inv.role ≠ .program) :
    ∃ frame stack, (m.step client).stack = .operation frame :: stack ∧
      frame.Hosts (m.step client).world inv :=
  (hreach.of_ends? h).2.resolve_left fun hprogram => hrole hprogram.1

/-- Whoever is told how a callback ended is told so as it ends, or is nobody. -/
theorem Reachable.ends?_of_returned (hreach : Reachable client m)
    (h : (m.step client).control = .deliver (.returned outcome)) :
    (∃ inv, m.ends? client = some (inv, outcome)) ∨ (m.step client).stack = [] := by
  have hhosting := hreach.hosting
  have unheard {report? : Option ReadyFailure} {p : Progress β} (hp : Progress.Apt m.world report? p)
      (hc : p.control = .deliver (.returned outcome)) : False := by
    have hruns := hp.hosts
    rw [hc] at hruns
    cases hruns
  rw [control_step] at h
  rw [stack_step]
  cases hm : m.control with
  | perform command =>
    rw [advance_perform client hm] at h
    exact (unheard (m.world.apt_perform command) h).elim
  | invoke callback inv =>
    simp only [advance, hm] at h
    cases h
  | continueTask c id result =>
    simp only [advance, hm, continueTask] at h
    split at h <;> cases h
  | deliver reply =>
    cases hs : m.stack with
    | nil =>
      right
      simp only [advance, hm, hs]
    | cons layer stack =>
      cases layer with
      | operation frame =>
        rw [advance_resume client hm hs] at h
        exact (unheard (hhosting.apt_resume hm hs) h).elim
      | callback rest inv =>
        rw [advance_callback hm hs] at h
        exact .inl ⟨inv, ends?_of_finish hm hs (Prod.ext rfl (finish_of_returned h))⟩

/-- **Exactly the failures of ready hooks and of their tasks are reported.** -/
theorem Reachable.report?_step (hreach : Reachable client m) :
    (m.step client).report? = m.failing? client := by
  have hhosting := hreach.step.hosting
  cases hends : m.ends? client with
  | some ended =>
    obtain ⟨inv, outcome⟩ := ended
    unfold failing? report?
    rw [hends, Option.bind_some]
    obtain ⟨hcontrol, ⟨hrole, hs⟩ | ⟨frame, stack, hs, hhosts⟩⟩ := hreach.of_ends? hends
    · rw [hcontrol, hs]
      simp [World.declarer?, hrole]
    · rw [hcontrol, hs]
      dsimp only
      rw [(hhosting.apt_resume hcontrol hs).report, ← hhosts.declarer?]
      rfl
  | none =>
    unfold failing? report?
    rw [hends, Option.bind_none]
    split
    · next stack command hc => exact (World.apt_perform _ command).report
    · next reply frame stack hc hs =>
      rw [(hhosting.apt_resume hc hs).report]
      cases reply with
      | returned outcome =>
        rcases hreach.ends?_of_returned hc with ⟨inv, h⟩ | h
        · cases hends.symm.trans h
        · cases h.symm.trans hs
      | _ => rfl
    · rfl

end

end Machine

/-! ## A log of reports -/

/-- The client with a log of all reports, which its callbacks do not see. -/
def Client.recording (client : Client σ β κ) : Client (σ × List ReadyFailure) β κ where
  start w s callback inv :=
    let (state, rest) := client.start w s.1 callback inv
    ((state, s.2), rest)
  resume w s rest reply :=
    let (state, next) := client.resume w s.1 rest reply
    ((state, s.2), next)
  report s failure := (s.1, s.2 ++ [failure])
  keeps s := client.keeps s.1
  holds := client.holds

namespace Machine

/-- The state with another log. -/
def withLog (m : Machine (σ × List ReadyFailure) β κ) (log : List ReadyFailure) :
    Machine (σ × List ReadyFailure) β κ :=
  { m with client := (m.client.1, log) }

section
variable {client : Client σ β κ} {m before before' : Machine (σ × List ReadyFailure) β κ}
  {log : List ReadyFailure}

theorem handles_withLog : (m.withLog log).handles client.recording = m.handles client.recording :=
  rfl

/-- Reclaiming takes no notice of the log. -/
theorem reclaim_withLog (hworld : before'.world = before.world)
    (hhandles : before'.handles client.recording = before.handles client.recording) :
    reclaim client.recording before' (m.withLog log) =
      (reclaim client.recording before m).withLog log := by
  suffices ∀ rounds, ∀ before before' m : Machine (σ × List ReadyFailure) β κ,
      before'.world = before.world →
      before'.handles client.recording = before.handles client.recording →
      reclaimWithin client.recording rounds before' (m.withLog log) =
        (reclaimWithin client.recording rounds before m).withLog log from
    this _ before before' m hworld hhandles
  intro rounds
  induction rounds with
  | zero =>
    intro _ _ _ _ _
    rfl
  | succ rounds ih =>
    intro before before' m hworld hhandles
    have honce : reclaimOnce client.recording before' (m.withLog log) =
        (reclaimOnce client.recording before m).withLog log := by
      unfold reclaimOnce
      rw [handles_withLog, hworld, hhandles]
      dsimp only [withLog]
      split <;> rfl
    have htidy : (m.withLog log).isTidy client.recording = m.isTidy client.recording := rfl
    unfold reclaimWithin
    rw [htidy, honce]
    split
    · rfl
    · exact ih m (m.withLog log) _ rfl handles_withLog

theorem follow_withLog (stack : List (Layer β κ)) (p : Progress β) :
    (m.withLog log).follow client.recording stack p =
      (m.follow client.recording stack p).withLog (log ++ p.report.toList) := by
  cases hreport : p.report with
  | none => simp [follow, withLog, hreport]
  | some failure => simp [follow, withLog, hreport, Client.recording]

theorem move_withLog (stack : List (Layer β κ)) (inv : Invocation) (next : Move β κ) :
    (m.withLog log).move stack inv next = (m.move stack inv next).withLog log := by
  cases next with
  | await event rest =>
    simp only [move, awaitEvent, withLog]
    split
    · split <;> rfl
    · rfl
  | _ => rfl

/-- The log only grows by what is reported, and has no other influence on a move. -/
theorem advance_withLog : (m.withLog log).advance client.recording =
    (m.advance client.recording).withLog (log ++ m.report?.toList) := by
  cases hm : m.control with
  | perform command =>
    rw [advance_perform _ hm, advance_perform (m := m.withLog log) _ hm]
    simp only [report?, hm]
    exact follow_withLog m.stack _
  | invoke callback inv =>
    simp only [advance, report?, hm, withLog, Client.recording, Option.toList_none, List.append_nil]
  | continueTask c id outcome =>
    simp only [advance, report?, hm, withLog, Option.toList_none, List.append_nil, continueTask]
    split <;> rfl
  | deliver reply =>
    cases hs : m.stack with
    | nil =>
      simp only [advance, report?, hm, hs, withLog, Option.toList_none, List.append_nil]
    | cons layer stack =>
      cases layer with
      | operation frame =>
        rw [advance_resume _ hm hs, advance_resume (m := m.withLog log) _ hm hs]
        simp only [report?, hm, hs]
        exact follow_withLog stack _
      | callback rest inv =>
        rw [advance_callback hm hs, advance_callback (m := m.withLog log) hm hs]
        have hsilent : m.report? = none := by simp only [report?, hm, hs]
        rw [hsilent, Option.toList_none, List.append_nil]
        let state := (client.recording.resume m.world m.client rest reply).1
        exact move_withLog (m := { m with client := state }) stack inv _

theorem step_withLog : (m.withLog log).step client.recording =
    (m.step client.recording).withLog (log ++ m.report?.toList) := by
  unfold step
  rw [advance_withLog]
  exact reclaim_withLog rfl handles_withLog

/-- **The log has no influence on a run**, and grows by what is reported. -/
theorem after_withLog (n : Nat) : (m.withLog log).after client.recording n =
    (m.after client.recording n).withLog (log ++ Machine.log client.recording report? m n) := by
  induction n with
  | zero => simp [after, Machine.log]
  | succ n ih =>
    show ((m.withLog log).after client.recording n).step client.recording = _
    rw [ih, step_withLog, log_add, log_one, ← List.append_assoc]
    rfl

theorem client_after (n : Nat) : (m.after client.recording n).client.2 =
    m.client.2 ++ Machine.log client.recording report? m n := by
  show ((m.withLog m.client.2).after client.recording n).client.2 = _
  rw [after_withLog]
  rfl

end

/-- **The log is that of the failures of ready hooks and of their tasks**, in order. -/
theorem log_recorded (client : Client σ β κ) (state : σ) (program : β) (n : Nat) :
    let m : Machine (σ × List ReadyFailure) β κ := .initial (state, []) program
    (m.after client.recording (n + 1)).client.2 =
      m.log client.recording (·.failing? client.recording) n := by
  intro m
  have hreach : Reachable client.recording m := .initial (state, []) program
  rw [client_after, Nat.add_comm n 1, log_add, log_one]
  show Machine.log client.recording report? (m.after client.recording 1) n = _
  refine List.filterMap_congr fun k _ => ?_
  rw [← after_add, Nat.add_comm 1 k]
  exact (hreach.after k).report?_step

end Machine

/-! ## As if it had succeeded -/

namespace Frame

variable {w : World β} {frame : Frame β} {outcome : Outcome β} {failure : ReadyFailure}

/-- What an operation does about a failure is what it does about a success, but for the report. -/
theorem resume_of_failure (h : frame.reports? w (.returned outcome) = some failure) :
    frame.resume w (.returned outcome) =
        { frame.resume w (.returned (.value none)) with report := some failure } ∧
      (frame.resume w (.returned (.value none))).report = none := by
  cases frame with
  | readyEnd typeName =>
    constructor
    · rw [← h]
      rfl
    · rfl
  | readySpawn c owner =>
    constructor
    · rw [← h]
      cases outcome with
      | task callback => cases h
      | _ => rfl
    · rfl
  | pass p =>
    cases hcurrent : p.current with
    | none =>
      unfold reports? declarer? at h
      simp [hcurrent] at h
    | some id =>
      have hreport (outcome : Outcome β) : (p.taskFinished w outcome).report =
          (Frame.pass p).reports? w (.returned outcome) :=
        (World.apt_taskFinished w p outcome).report
      constructor
      · show p.taskFinished w outcome = { p.taskFinished w (.value none) with report := some failure }
        rw [← h, ← hreport]
        unfold Pass.taskFinished
        rw [hcurrent]
      · show (p.taskFinished w (.value none)).report = none
        rw [hreport]
        unfold reports?
        cases (Frame.pass p).declarer? w <;> rfl
  | _ => cases h

/-- However a callback ends that belongs to a ready hook, the operation that runs it goes on at the
same place. -/
theorem place_of_declarer {typeName : String} (h : frame.declarer? w = some typeName)
    (other outcome : Outcome β) :
    (frame.resume w (.returned other)).frames = (frame.resume w (.returned outcome)).frames ∧
      (frame.resume w (.returned other)).control = (frame.resume w (.returned outcome)).control := by
  cases frame with
  | readyEnd typeName => exact ⟨rfl, rfl⟩
  | readySpawn c owner =>
    have hplace (outcome : Outcome β) :
        (w.spawnReady c owner (.returned outcome)).frames = [] ∧
          (w.spawnReady c owner (.returned outcome)).control = .deliver .proceed := by
      cases outcome <;> exact ⟨rfl, rfl⟩
    exact ⟨(hplace other).1.trans (hplace outcome).1.symm,
      (hplace other).2.trans (hplace outcome).2.symm⟩
  | pass p =>
    cases hcurrent : p.current with
    | none =>
      unfold declarer? at h
      simp [hcurrent] at h
    | some id =>
      show (p.taskFinished w other).frames = (p.taskFinished w outcome).frames ∧
        (p.taskFinished w other).control = (p.taskFinished w outcome).control
      unfold Pass.taskFinished
      rw [hcurrent]
      exact ⟨rfl, rfl⟩
  | _ => cases h

end Frame

namespace Machine

/-- The state, had the callback that has just ended done so with another outcome. -/
def endedWith (m : Machine σ β κ) (outcome : Outcome β) : Machine σ β κ :=
  m.busyWith m.stack (.deliver (.returned outcome))

theorem Reachable.of_failing {client : Client σ β κ} {m : Machine σ β κ} {failure : ReadyFailure}
    (hreach : Reachable client m) (h : m.failing? client = some failure) :
    ∃ outcome frame stack, (m.step client).control = .deliver (.returned outcome) ∧
      (m.step client).stack = .operation frame :: stack ∧ outcome.failure? = some failure.text ∧
      frame.reports? (m.step client).world (.returned outcome) = some failure := by
  obtain ⟨⟨inv, outcome⟩, hends, hfails⟩ := Option.bind_eq_some_iff.mp h
  obtain ⟨typeName, hdeclarer, htext⟩ := Option.bind_eq_some_iff.mp hfails
  obtain ⟨hcontrol, -⟩ := hreach.of_ends? hends
  obtain ⟨text, hfailure, rfl⟩ := Option.map_eq_some_iff.mp htext
  have hrole : inv.role ≠ .program := by
    intro hrole
    simp [World.declarer?, hrole] at hdeclarer
  obtain ⟨frame, stack, hs, hhosts⟩ := hreach.hosts_of_ends? hends hrole
  refine ⟨outcome, frame, stack, hcontrol, hs, hfailure, ?_⟩
  unfold Frame.reports?
  rw [hhosts.declarer?, hdeclarer]
  exact htext

/-- However the callback had ended, the run would go on at the same place. -/
theorem Reachable.place_of_failing {client : Client σ β κ} {m : Machine σ β κ}
    {failure : ReadyFailure} (hreach : Reachable client m) (h : m.failing? client = some failure)
    (outcome : Outcome β) :
    (((m.step client).endedWith outcome).step client).stack = ((m.step client).step client).stack ∧
      (((m.step client).endedWith outcome).step client).control =
        ((m.step client).step client).control := by
  obtain ⟨failed, frame, stack, hcontrol, hs, -, hreports⟩ := hreach.of_failing h
  obtain ⟨typeName, hdeclarer, -⟩ := Option.bind_eq_some_iff.mp hreports
  obtain ⟨hframes, hnext⟩ := Frame.place_of_declarer hdeclarer outcome failed
  have hadvance := advance_resume client hcontrol hs
  have hother : ((m.step client).endedWith outcome).advance client =
      ((m.step client).endedWith outcome).follow client stack
        (frame.resume (m.step client).world (.returned outcome)) :=
    advance_resume client rfl hs
  rw [stack_step, stack_step, control_step, control_step, hadvance, hother]
  refine ⟨?_, hnext⟩
  show List.map Layer.operation _ ++ stack = List.map Layer.operation _ ++ stack
  rw [hframes]

section
variable {client : Client σ β κ} {m : Machine (σ × List ReadyFailure) β κ} {failure : ReadyFailure}

/-- **A ready hook that fails leaves everything as if it had succeeded**, with one more entry in the
log. -/
theorem step_of_failing (hreach : Reachable client.recording m)
    (h : m.failing? client.recording = some failure) :
    ((m.step client.recording).step client.recording =
        (((m.step client.recording).endedWith (.value none)).step client.recording).withLog
          ((m.step client.recording).client.2 ++ [failure])) ∧
      ((m.step client.recording).endedWith (.value none)).report? = none := by
  obtain ⟨outcome, frame, stack, hcontrol, hs, hfailure, hreports⟩ := hreach.of_failing h
  obtain ⟨hresume, hsilent⟩ := Frame.resume_of_failure hreports
  generalize m.step client.recording = n at hcontrol hs hresume hsilent ⊢
  constructor
  · have hholds : n.HoldsSame client.recording n.stack (.deliver (.returned (.value none))) := by
      refine ⟨?_, rfl⟩
      have hnone : (Control.deliver (.returned outcome)).handles = [] := by
        cases outcome <;> first | rfl | cases hfailure
      rw [hcontrol, hnone]
      rfl
    have hadvance : n.advance client.recording =
        ((n.endedWith (.value none)).advance client.recording).withLog
          (n.client.2 ++ [failure]) := by
      rw [advance_resume _ hcontrol hs, hresume,
        advance_resume (m := n.endedWith (.value none)) _ rfl hs]
      show _ = (n.follow client.recording stack
        (frame.resume n.world (.returned (.value none)))).withLog _
      simp only [follow, withLog, hsilent]
      rfl
    unfold step
    rw [hadvance]
    exact reclaim_withLog rfl hholds.handles_eq.symm
  · unfold report? endedWith busyWith
    rw [hs]
    exact hsilent

/-- From then on, the runs differ in this entry only. -/
theorem after_of_failing (hreach : Reachable client.recording m)
    (h : m.failing? client.recording = some failure) (n : Nat) :
    let ended := m.step client.recording
    let lucky := (ended.endedWith (.value none)).after client.recording (n + 1)
    ∃ later, lucky.client.2 = ended.client.2 ++ later ∧
      ended.after client.recording (n + 1) = lucky.withLog (ended.client.2 ++ failure :: later) := by
  intro ended lucky
  obtain ⟨hstep, hsilent⟩ := step_of_failing hreach h
  let next := (ended.endedWith (.value none)).step client.recording
  refine ⟨Machine.log client.recording report? next n, ?_, ?_⟩
  · show ((ended.endedWith (.value none)).after client.recording (n + 1)).client.2 = _
    rw [client_after, Nat.add_comm n 1, log_add, log_one, hsilent]
    rfl
  · show ended.after client.recording (n + 1) =
      ((ended.endedWith (.value none)).after client.recording (n + 1)).withLog _
    rw [← after_succ, hstep, after_withLog, after_succ, List.append_assoc]
    rfl

/-- The same ready hooks start. -/
theorem readyStarts_of_failing (hreach : Reachable client.recording m)
    (h : m.failing? client.recording = some failure) (i : InstanceId) (n : Nat) :
    (m.step client.recording).readyStarts client.recording i n =
      ((m.step client.recording).endedWith (.value none)).readyStarts client.recording i n := by
  unfold readyStarts Machine.log
  refine List.filterMap_congr fun k _ => ?_
  cases k with
  | zero =>
    obtain ⟨outcome, -, -, hcontrol, -⟩ := hreach.of_failing h
    show (m.step client.recording).control.readying? i = none
    rw [hcontrol]
    rfl
  | succ k =>
    obtain ⟨later, -, hsame⟩ := after_of_failing hreach h k
    rw [hsame]
    rfl

end

end Machine

/-! ## Tasks that ready hooks yield -/

namespace MainContext

theorem id_mem_held {x : MainContext β} {task : Task β} (h : task ∈ x.heldTasks) :
    task.id ∈ x.roster.held := by
  simp only [roster, Roster.held, List.mem_append, List.mem_map, List.mem_flatten]
  rcases mem_heldTasks.mp h with hmem | ⟨set, hset, hmem⟩ | hmem
  · exact .inl (.inr (List.mem_map_of_mem hmem))
  · exact .inr ⟨set.ids, ⟨set, hset, rfl⟩, List.mem_map_of_mem hmem⟩
  · exact .inl (.inl ⟨task, hmem, rfl⟩)

/-- A task with a new identity belongs to whom it was spawned for. -/
theorem owned_spawn (x : MainContext β) (hnew : (⟨x.nextTask⟩ : TaskId) ∉ x.roster.held)
    (callback : β) (owner? : Option ReadyOwner) :
    (x.spawn callback owner?).Owned ⟨x.nextTask⟩ owner? := by
  refine ⟨Nat.lt_succ_self _, fun task htask hid => ?_⟩
  have hheld : (x.spawn callback owner?).heldTasks =
      x.heldTasks ++ [{ id := ⟨x.nextTask⟩, callback, owner := owner? }] := by
    simp [heldTasks, spawn]
  rw [hheld] at htask
  rcases List.mem_append.mp htask with hmem | hmem
  · exact absurd (id_mem_held hmem) (hid ▸ hnew)
  · rw [List.mem_singleton.mp hmem]

end MainContext

namespace Machine

section
variable {client : Client σ β κ} {m : Machine σ β κ} {inv : Invocation} {c : ContextId}
  {id : TaskId}

/-- The task that a ready hook has yielded is a new one, and belongs to the type that declares the
hook. -/
theorem Reachable.owned_of_yield (hreach : Reachable client m) {callback : β} {typeName : String}
    (h : m.ends? client = some (inv, .task callback)) (hrole : inv.role = .readyTask typeName) :
    ∃ c id owner, owner.typeName = typeName ∧ id ∉ ((m.step client).world.roster c).held ∧
      id ∈ (((m.step client).step client).world.roster c).held ∧
      ((m.step client).step client).world.Owned c id (some owner) := by
  obtain ⟨hcontrol, -⟩ := hreach.of_ends? h
  obtain ⟨frame, stack, hs, hhosts⟩ := hreach.hosts_of_ends? h (by rw [hrole]; nofun)
  have hnumber {c : ContextId} {id : TaskId}
      (hheld : id ∈ ((m.step client).world.roster c).held) :
      id.number < ((m.step client).world.roster c).nextTask := hreach.step.number_lt hheld
  generalize m.step client = n at hcontrol hs hhosts hnumber ⊢
  unfold Frame.Hosts at hhosts
  rw [hrole] at hhosts
  obtain ⟨c, owner, rfl, htype, -, x, hx⟩ := hhosts
  have hspawned : (n.advance client).world.context? c =
      some (x.spawn callback (some owner)) := by
    rw [advance_resume _ hcontrol hs]
    show (n.world.modifyContext c (·.spawn callback (some owner))).context? c = _
    rw [World.context?_modifyContext, if_pos rfl, hx]
    rfl
  have hnew : (⟨x.nextTask⟩ : TaskId) ∉ x.roster.held := by
    intro hheld
    rw [← World.roster_eq hx] at hheld
    have hlt := hnumber hheld
    rw [World.roster_eq hx] at hlt
    exact Nat.lt_irrefl _ hlt
  refine ⟨c, ⟨x.nextTask⟩, owner, htype, World.roster_eq hx ▸ hnew, ?_,
    (entrusts_reclaim n).owned ⟨_, hspawned, x.owned_spawn hnew callback (some owner)⟩⟩
  rw [(calm_step client n).roster_eq c, World.roster_eq hspawned]
  simp [MainContext.roster, MainContext.spawn, Roster.held]

/-- A task is reported under the name of the type that it belongs to. -/
theorem Reachable.declarer?_of_owned (hreach : Reachable client m) {owner : ReadyOwner}
    {outcome : Outcome β} (howned : m.world.Owned c id (some owner))
    (h : m.ends? client = some (inv, outcome)) (hrole : inv.role = .task c id) :
    (m.step client).world.declarer? inv = some owner.typeName := by
  obtain ⟨frame, stack, hs, hhosts⟩ := hreach.hosts_of_ends? h (by rw [hrole]; nofun)
  obtain ⟨x, hx, -, howner⟩ := hreach.entrusts.owned howned
  have hmanned := hreach.step.orderly.2 c
  generalize m.step client = n at hs hhosts hmanned hx ⊢
  unfold Frame.Hosts at hhosts
  rw [hrole] at hhosts
  obtain ⟨p, rfl, rfl, hcurrent⟩ := hhosts
  -- the pass that polls the task has it in its set
  obtain ⟨ids, rest, hpasses, hmem⟩ := Manned.innermost hs rfl hmanned
  rw [World.roster_eq hx] at hpasses
  have hid := hmem id hcurrent
  rw [← MainContext.ids_passTasks hpasses] at hid
  obtain ⟨other, hother, hsame⟩ := List.mem_map.mp hid
  obtain ⟨task, hfound⟩ : ∃ task, x.passTasks.find? id = some task := by
    refine Option.isSome_iff_exists.mp (List.find?_isSome.mpr ⟨other, hother, ?_⟩)
    exact decide_eq_true hsame
  have hset : x.passTasks ∈ x.passes := by
    cases hsets : x.passes with
    | nil => simp [MainContext.roster, hsets] at hpasses
    | cons set sets => simp [MainContext.passTasks, hsets]
  have hheld : task ∈ x.heldTasks :=
    MainContext.mem_heldTasks.mpr (.inr (.inl ⟨_, hset, List.mem_of_find?_eq_some hfound⟩))
  have htask : task.id = id := by simpa using List.find?_some hfound
  unfold World.declarer?
  rw [hrole]
  dsimp only
  rw [hx, Option.bind_some, hfound, Option.bind_some, howner task hheld htask]
  rfl

/-- **What a hook yields is reported under the name of the type that declares the hook**, whenever it
ends. -/
theorem Reachable.declarer_of_yield (hreach : Reachable client m) {callback : β} {typeName : String}
    (h : m.ends? client = some (inv, .task callback)) (hrole : inv.role = .readyTask typeName) :
    ∃ c id, id ∉ ((m.after client 1).world.roster c).held ∧
      id ∈ ((m.after client 2).world.roster c).held ∧
      ∀ n other outcome, (m.after client (2 + n)).ends? client = some (other, outcome) →
        other.role = .task c id →
        (m.after client (2 + n + 1)).world.declarer? other = some typeName := by
  obtain ⟨c, id, owner, rfl, hnew, hheld, howned⟩ := hreach.owned_of_yield h hrole
  refine ⟨c, id, hnew, hheld, fun n other outcome hends hother => ?_⟩
  have howned := (hreach.step.step.entrusts_after n).owned howned
  have hafter : ((m.step client).step client).after client n = m.after client (2 + n) :=
    (after_add client m 2 n).symm
  rw [hafter] at howned
  exact (hreach.after (2 + n)).declarer?_of_owned howned hends hother

end

end Machine

/-! ## The contract -/

/-- **Ready bookkeeping is exact.** In every run of every client that removes only sources whose
identities it was handed, whatever callbacks construct, iterate, dispose of and drop:

* The ready hooks on the record of an instance are as many as its attached sources that have not
  started. They are attached to its own context, and none of them has ever started.
* The ready hooks of an instance that start are some of its class, each once, and none starts after
  the instance was dropped.
* An iteration starts every ready hook that waits when it collects its sources, unless the instance is
  disposed of or dropped by the end of the iteration.

If reports only go to a log, then moreover:

* Exactly the failures of ready hooks and of their tasks are in the log, in order.
* With one more entry in the log, a failure leaves everything as if the callback had succeeded, for
  good, and the same ready hooks start. Whatever the callback had ended with, the run would have gone
  on at the same place.
* A task that a ready hook has yielded is reported under the type that declares the hook. -/
theorem ready_bookkeeping_exact (client : Client σ β κ) (state : σ) (program : β) (n : Nat)
    (hhanded : (Machine.initial state program : Machine σ β κ).RemovesHanded client n) :
    let m (k : Nat) : Machine σ β κ := (Machine.initial state program).after client k
    let r (k : Nat) : Machine (σ × List ReadyFailure) β κ :=
      (Machine.initial (state, []) program).after client.recording k
    (∀ k ≤ n, ∀ i x, (m k).world.instance? i = some x →
      x.readySources.length = ((m k).world.waitingFor x.context i none).length ∧
      (∀ c, c ≠ x.context → (m k).world.waitingFor c i none = []) ∧
      ∀ id ∈ (m k).world.waitingFor x.context i none, ∀ j < k,
        ¬ (m j).StartsWork client x.context id) ∧
    (∀ i, (∀ k x, (m k).world.instance? i = some x → ∀ l,
        ((m 0).readyStarts client i l).Subperm x.ofClass.readyHooks) ∧
      ∀ j k l, j ≤ k → k ≤ l → (m j).world.isAlive i = true → (m k).world.isAlive i = false →
        (m l).control.readying? i = none) ∧
    (∀ k l c x, k + l < n → (m k).control = .perform (.iterate c) →
      (m k).world.context? c = some x →
      (∀ e, 0 < e → e ≤ l → (m k).stack.length < (m (k + e)).stack.length) →
      (m (k + (l + 1))).stack.length = (m k).stack.length →
      ∃ j, 0 < j ∧ j ≤ l ∧ (m (k + j)).Collects c (m k).stack ∧
        ∀ s i hook, (m (k + j)).source? c s.id = some s → s.running = false →
          s.work = .ready i hook.1 hook.2 → (m (k + j)).world.isAlive i = true →
          (∃ e, j ≤ e ∧ e ≤ l ∧ (m (k + e)).StartsWork client c s.id ∧
            (m (k + (e + 1))).control.readying? i = some hook) ∨
          ∀ y, (m (k + (l + 1))).world.instance? i = some y → y.disposed = true) ∧
    (∀ k, (r (k + 1)).client.2 =
      (r 0).log client.recording (·.failing? client.recording) k) ∧
    (∀ k failure, (r k).failing? client.recording = some failure →
      let lucky (l : Nat) := ((r (k + 1)).endedWith (.value none)).after client.recording l
      (∀ l, ∃ later, (lucky (l + 1)).client.2 = (r (k + 1)).client.2 ++ later ∧
        r (k + 1 + (l + 1)) =
          (lucky (l + 1)).withLog ((r (k + 1)).client.2 ++ failure :: later)) ∧
      (∀ i l, (r (k + 1)).readyStarts client.recording i l =
        (lucky 0).readyStarts client.recording i l) ∧
      ∀ outcome,
        (((r (k + 1)).endedWith outcome).step client.recording).stack = (r (k + 2)).stack ∧
        (((r (k + 1)).endedWith outcome).step client.recording).control = (r (k + 2)).control) ∧
    ∀ k inv callback typeName, (r k).ends? client.recording = some (inv, .task callback) →
      inv.role = .readyTask typeName →
      ∃ c id, id ∉ ((r (k + 1)).world.roster c).held ∧ id ∈ ((r (k + 2)).world.roster c).held ∧
        ∀ l, k + 2 ≤ l → ∀ other outcome,
          (r l).ends? client.recording = some (other, outcome) → other.role = .task c id →
          (r (l + 1)).world.declarer? other = some typeName := by
  intro m r
  have hinitial : Reachable client (Machine.initial state program) := .initial state program
  have hreach (k : Nat) : Reachable client (m k) := hinitial.after k
  have hrecorded (k : Nat) : Reachable client.recording (r k) :=
    (Reachable.initial (state, []) program).after k
  have hcurrent {k : Nat} (hk : k ≤ n) : (m k).world.Current := (hhanded.mono hk).current
  have hadd (k l : Nat) : m (k + l) = (m k).after client l := Machine.after_add client _ k l
  refine ⟨?_, fun i => ⟨?_, ?_⟩, ?_, ?_, ?_, ?_⟩
  · intro k hk i x hx
    obtain ⟨hperm, helsewhere⟩ :=
      (hreach k).waitingFor_perm (hcurrent hk) (World.duties?_eq hx) none
    refine ⟨hperm.length_eq.symm, helsewhere, fun id hid j hj => ?_⟩
    obtain ⟨e, rfl⟩ : ∃ e, k = j + (e + 1) := Nat.exists_eq_add_of_lt hj
    have hholds := World.mem_waitingFor.mp hid
    rw [hadd] at hholds
    exact (hreach j).not_started_of_holds hholds
  · intro k x hx l
    exact Machine.readyStarts_subperm client state program hx l
  · intro j k l hjk hkl halive hdropped
    have hl : 0 < l := by
      rcases Nat.eq_zero_or_pos l with rfl | hl
      · obtain rfl : j = k := by omega
        cases halive.symm.trans hdropped
      · exact hl
    exact hinitial.readying?_of_dropped hjk hkl halive hdropped hl
  · intro k l c x hl hm hx hbusy hover
    simp only [hadd] at hbusy hover ⊢
    refine (hreach k).starts_of_pending hm hx hbusy hover fun e he => ?_
    rw [← hadd]
    exact hcurrent (by omega)
  · exact Machine.log_recorded client state program
  · intro k failure hfailing lucky
    refine ⟨fun l => ?_, fun i l => ?_, fun outcome => ?_⟩
    · obtain ⟨later, hlater, hsame⟩ := Machine.after_of_failing (hrecorded k) hfailing l
      exact ⟨later, hlater, (Machine.after_add _ _ (k + 1) (l + 1)).trans hsame⟩
    · exact Machine.readyStarts_of_failing (hrecorded k) hfailing i l
    · exact (hrecorded k).place_of_failing hfailing outcome
  · intro k inv callback typeName hends hrole
    obtain ⟨c, id, hnew, hheld, hnames⟩ := (hrecorded k).declarer_of_yield hends hrole
    refine ⟨c, id, hnew, hheld, fun l hl other outcome hother htask => ?_⟩
    obtain ⟨e, rfl⟩ := Nat.exists_eq_add_of_le hl
    have hafter (d : Nat) : r (k + 2 + d) = (r k).after client.recording (2 + d) := by
      rw [Nat.add_assoc]
      exact Machine.after_add _ _ k (2 + d)
    rw [hafter] at hother
    rw [Nat.add_assoc, hafter]
    exact hnames e other outcome hother htask

/-- A level of a class that declares a ready hook. -/
def ClassLevel.greeting (typeName : String) (hook : ReadyHook Nat) : ClassLevel Nat :=
  { (Class.simple .empty [] (some hook)).own with typeName }

/-- A program that makes an instance of a class with two ready hooks and one of a class with one, and
iterates. The first hook fails, and the task that the second one yields panics. The third hook
iterates. Then the program makes an instance that it does not keep, and iterates again. -/
def greeter : Client Unit Nat (Routine Nat) :=
  .ofRoutines
    (fun
      | 0 => { acts := [.command (.newContext { clock := .manual }),
          .command (.construct
            { ofClass := ⟨.greeting "Derived" (.deferred 2), [.greeting "Base" (.immediate 1)]⟩
              context := ⟨0⟩ }),
          .command (.construct
            { ofClass := ⟨.greeting "Other" (.immediate 4), []⟩, context := ⟨0⟩ }),
          .command (.iterate ⟨0⟩),
          .command (.construct
            { ofClass := ⟨.greeting "Other" (.immediate 4), []⟩, context := ⟨0⟩ }),
          .command (.iterate ⟨0⟩)] }
      | 1 => { outcome := .failure "boom" }
      | 2 => { outcome := .task 3 }
      | 3 => { outcome := .panic (.text "late") }
      | 4 => { acts := [.command (.iterate ⟨0⟩)] }
      | _ => {})
    [.object ⟨1⟩, .object ⟨2⟩]

/-- A state of the run of `greeter`. -/
def greeterAfter (n : Nat) : Machine Unit Nat (Routine Nat) :=
  (Machine.initial () 0).after greeter n

/-- A state of the run of `greeter` with a log. -/
def greeterRecorded (n : Nat) : Machine (Unit × List ReadyFailure) Nat (Routine Nat) :=
  (Machine.initial ((), []) 0).after greeter.recording n

/-- What the run of `greeter` comes to, evaluated once. -/
theorem greeter_runs :
    (greeterAfter 0).throughout greeter (·.removal?.isNone) 39 = true ∧
    ((greeterAfter 12).world.instance? ⟨1⟩).map (·.context) = some ⟨0⟩ ∧
    (greeterAfter 12).world.waitingFor ⟨0⟩ ⟨1⟩ none = [⟨0⟩, ⟨1⟩] ∧
    (greeterAfter 12).control = .perform (.iterate ⟨0⟩) ∧
    ((greeterAfter 12).world.context? ⟨0⟩).isSome = true ∧
    (greeterAfter 12).stack.length = 1 ∧
    ((greeterAfter 12).step greeter).throughout greeter
      (fun m => decide (1 < m.stack.length)) 26 = true ∧
    (greeterAfter (12 + (26 + 1))).stack.length = 1 ∧
    (greeterAfter 0).readyStarts greeter ⟨1⟩ 39 =
      [("Base", .immediate 1), ("Derived", .deferred 2)] ∧
    (greeterAfter 0).readyStarts greeter ⟨2⟩ 39 = [("Other", .immediate 4)] ∧
    (greeterAfter 43).world.isAlive ⟨3⟩ = true ∧ (greeterAfter 44).world.isAlive ⟨3⟩ = false := by
  cbv

theorem greeter_fails : (greeterRecorded 16).failing? greeter.recording = some ⟨"Base", "boom"⟩ ∧
    (greeterRecorded 17).client.2 = [] ∧
    (greeterRecorded 39).client.2 = [⟨"Base", "boom"⟩, ⟨"Derived", "late"⟩] ∧
    (((greeterRecorded 17).endedWith (.value none)).after greeter.recording (21 + 1)).client.2 =
      [⟨"Derived", "late"⟩] := by
  cbv

theorem greeter_removesHanded : (Machine.initial () 0).RemovesHanded greeter 39 := by
  obtain ⟨hremovals, -⟩ := greeter_runs
  intro k hk c id hremoval
  have hnone := Machine.throughout_iff.mp hremovals k hk
  change (greeterAfter k).removal?.isNone = true at hnone
  change (greeterAfter k).removal? = some (c, id) at hremoval
  rw [hremoval] at hnone
  cases hnone

set_option maxRecDepth 100000 in
/-- All ready hooks of the instances that `greeter` keeps start, although the first one fails. Had it
succeeded, the run would have come to the same end, with one entry less in the log. -/
theorem ready_bookkeeping_exact_greeter :
    (Machine.initial () 0).RemovesHanded greeter 39 ∧
    (greeterAfter 12).world.waitingFor ⟨0⟩ ⟨1⟩ none = [⟨0⟩, ⟨1⟩] ∧
    (∃ x, (greeterAfter 12).world.instance? ⟨1⟩ = some x ∧ x.readySources.length = 2) ∧
    (∃ j, j ≤ 26 ∧ (greeterAfter (12 + j)).Collects ⟨0⟩ (greeterAfter 12).stack) ∧
    (greeterAfter 0).readyStarts greeter ⟨1⟩ 39 =
      [("Base", .immediate 1), ("Derived", .deferred 2)] ∧
    (greeterAfter 0).readyStarts greeter ⟨2⟩ 39 = [("Other", .immediate 4)] ∧
    (∀ l, 44 ≤ l → (greeterAfter l).control.readying? ⟨3⟩ = none) ∧
    (greeterRecorded 0).log greeter.recording (·.failing? greeter.recording) 38 =
      [⟨"Base", "boom"⟩, ⟨"Derived", "late"⟩] ∧
    ∃ lucky, lucky = ((greeterRecorded 17).endedWith (.value none)).after greeter.recording 22 ∧
      lucky.client.2 = [⟨"Derived", "late"⟩] ∧
      greeterRecorded 39 = lucky.withLog [⟨"Base", "boom"⟩, ⟨"Derived", "late"⟩] := by
  obtain ⟨hcounts, hstarts, hiterations, hlog, hfailing, -⟩ :=
    ready_bookkeeping_exact greeter () 0 39 greeter_removesHanded
  obtain ⟨-, hinstance, hwaiting, hm, hcontext, hone, hrun, hover, hfirst, hsecond, halive, hdropped⟩ :=
    greeter_runs
  obtain ⟨hfails, hempty, hend, hlucky⟩ := greeter_fails
  obtain ⟨x, hx, hplace⟩ := Option.map_eq_some_iff.mp hinstance
  obtain ⟨y, hy⟩ := Option.isSome_iff_exists.mp hcontext
  have hcount := (hcounts 12 (by decide) ⟨1⟩ x hx).1
  rw [hplace] at hcount
  have hbusy (e : Nat) (hpos : 0 < e) (he : e ≤ 26) :
      (greeterAfter 12).stack.length < (greeterAfter (12 + e)).stack.length := by
    rw [hone, greeterAfter, Machine.after_add]
    exact Machine.busy_of_throughout hrun e hpos he
  obtain ⟨j, -, hj, hcollects, -⟩ :=
    hiterations 12 26 ⟨0⟩ y (by decide) hm hy hbusy (hover.trans hone.symm)
  obtain ⟨later, hlater, hsame⟩ := (hfailing 16 ⟨"Base", "boom"⟩ hfails).1 21
  change _ = (greeterRecorded 17).client.2 ++ later at hlater
  change greeterRecorded 39 = Machine.withLog _ ((greeterRecorded 17).client.2 ++ _) at hsame
  rw [hempty, List.nil_append] at hlater hsame
  obtain rfl : later = [⟨"Derived", "late"⟩] := hlater.symm.trans hlucky
  exact ⟨greeter_removesHanded, hwaiting, ⟨x, hx, hcount.trans (congrArg List.length hwaiting)⟩,
    ⟨j, hj, hcollects⟩, hfirst, hsecond,
    fun l hl => (hstarts ⟨3⟩).2 43 44 l (by decide) hl halive hdropped,
    (hlog 38).symm.trans hend, _, rfl, hlucky, hsame⟩

end ObjectSystem
