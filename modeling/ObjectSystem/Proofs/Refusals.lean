import ObjectSystem.Proofs.Abandonment
import ObjectSystem.Proofs.Alike
import ObjectSystem.Proofs.Conclusions
import ObjectSystem.Proofs.ConstructOnly
import ObjectSystem.Proofs.LifeCycle
import ObjectSystem.Proofs.Punctual
import ObjectSystem.Proofs.Stored

/-!
# Writes that fail

A write is admitted or refused before anything else happens, for the first of a few reasons
(`Instance.Refuses`). Refusing it is all that the next step does: no callback starts, and nothing
changes (`Machine.Fails`); only what the caller let go of with the command may be reclaimed, and
that leaves the instances that live on as they were (`Machine.Reachable.instance_of_step`). A write
that is admitted stores, reports and runs its effect, and it is done unless one of the callbacks
that it starts never returns (`concludes_write`).
-/

namespace ObjectSystem

variable {σ β κ : Type}

/-! ## Reasons -/

namespace Instance

variable {x : Instance β} {isA : InstanceId → TypeHandle → Bool} {name : String} {value : Value}

/-- A property that cannot be written at any time: it is stored and not writable, or computed
without a setter. -/
def Closed (x : Instance β) (entry : PropertyEntry β) : Prop :=
  match entry.behaviour with
  | .stored _ _ _ => entry.spec.flags.writable = false
  | .computed _ _ => x.ofClass.findSetter? entry.spec.name = none

/-- A property that cannot be written any more: it is stored and construct-only, and the
construction is over. -/
def Late (x : Instance β) (entry : PropertyEntry β) : Prop :=
  match entry.behaviour with
  | .stored _ _ _ => entry.spec.flags.constructOnly = true ∧ x.constructing = false
  | .computed _ _ => False

/-- Why a write is refused: the first reason that there is. -/
inductive Refuses (x : Instance β) (isA : InstanceId → TypeHandle → Bool) (name : String)
    (value : Value) : PropertyError → Prop
  /-- The name is neither that of a property nor that of a setter. -/
  | unknown (hproperty : x.ofClass.findProperty? name = none)
      (hsetter : x.ofClass.findSetter? name = none) :
      Refuses x isA name value (.unknownProperty x.typeName name)
  | closed (entry : PropertyEntry β) (hproperty : x.ofClass.findProperty? name = some entry)
      (hclosed : x.Closed entry) :
      Refuses x isA name value (.notWritable x.typeName entry.spec.name)
  | late (entry : PropertyEntry β) (hproperty : x.ofClass.findProperty? name = some entry)
      (hopen : ¬x.Closed entry) (hlate : x.Late entry) :
      Refuses x isA name value (.constructOnly x.typeName entry.spec.name)
  /-- The value does not fit. -/
  | unfit (entry : PropertyEntry β) (hproperty : x.ofClass.findProperty? name = some entry)
      (hopen : ¬x.Closed entry) (hearly : ¬x.Late entry) (cause : SpecError)
      (hcheck : entry.spec.check isA value = .error cause) :
      Refuses x isA name value (.invalidValue cause)

theorem admitWrite_of_none (hproperty : x.ofClass.findProperty? name = none)
    (hsetter : x.ofClass.findSetter? name = none) :
    x.admitWrite isA name value = .error (.unknownProperty x.typeName name) := by
  unfold admitWrite
  rw [hproperty]
  dsimp only
  rw [hsetter]
  rfl

section
variable {entry : PropertyEntry β} (hproperty : x.ofClass.findProperty? name = some entry)
include hproperty

theorem admitWrite_of_closed (hclosed : x.Closed entry) :
    x.admitWrite isA name value = .error (.notWritable x.typeName entry.spec.name) := by
  obtain ⟨spec, behaviour⟩ := entry
  unfold admitWrite
  rw [hproperty]
  cases behaviour with
  | computed getter field =>
      dsimp only
      rw [show x.ofClass.findSetter? spec.name = none from hclosed]
  | stored notify equality effect =>
      dsimp only
      rw [if_pos (by simpa [Closed] using hclosed)]

theorem admitWrite_of_late (hopen : ¬x.Closed entry) (hlate : x.Late entry) :
    x.admitWrite isA name value = .error (.constructOnly x.typeName entry.spec.name) := by
  obtain ⟨spec, behaviour⟩ := entry
  unfold admitWrite
  rw [hproperty]
  cases behaviour with
  | computed getter field => exact hlate.elim
  | stored notify equality effect =>
      dsimp only
      rw [if_neg (by simpa [Closed] using hopen), if_pos (by simpa [Late] using hlate)]

variable (isA value) in
/-- A write to a property that is open, and in time, is decided by the value. -/
theorem admitWrite_of_open (hopen : ¬x.Closed entry) (hearly : ¬x.Late entry) :
    ∃ write, x.admitWrite isA name value =
      match entry.spec.check isA value with
      | .ok _ => .ok write
      | .error cause => .error (.invalidValue cause) := by
  obtain ⟨spec, behaviour⟩ := entry
  unfold admitWrite
  rw [hproperty]
  cases behaviour with
  | computed getter field =>
      obtain ⟨callback, hsetter⟩ := Option.ne_none_iff_exists'.mp hopen
      refine ⟨.computed spec callback, ?_⟩
      dsimp only
      rw [hsetter]
      cases spec.check isA value <;> rfl
  | stored notify equality effect =>
      refine ⟨.stored spec notify equality effect, ?_⟩
      dsimp only
      rw [if_neg (by simpa [Closed] using hopen), if_neg (by simpa [Late] using hearly)]
      cases spec.check isA value <;> rfl

end

/-- What is refused is refused for one of the reasons. -/
theorem refuses_of_admitWrite {e : PropertyError} (h : x.admitWrite isA name value = .error e) :
    x.Refuses isA name value e := by
  cases hproperty : x.ofClass.findProperty? name with
  | none =>
      cases hsetter : x.ofClass.findSetter? name with
      | none =>
          cases (admitWrite_of_none hproperty hsetter).symm.trans h
          exact .unknown hproperty hsetter
      | some callback =>
          unfold admitWrite at h
          rw [hproperty] at h
          dsimp only at h
          rw [hsetter] at h
          cases h
  | some entry =>
      by_cases hclosed : x.Closed entry
      · cases (admitWrite_of_closed hproperty hclosed).symm.trans h
        exact .closed entry hproperty hclosed
      by_cases hlate : x.Late entry
      · cases (admitWrite_of_late hproperty hclosed hlate).symm.trans h
        exact .late entry hproperty hclosed hlate
      obtain ⟨write, hwrite⟩ := admitWrite_of_open isA value hproperty hclosed hlate
      rw [hwrite] at h
      cases hcheck : entry.spec.check isA value with
      | ok _ =>
          rw [hcheck] at h
          cases h
      | error cause =>
          rw [hcheck] at h
          cases h
          exact .unfit entry hproperty hclosed hlate cause hcheck

/-- Each of the reasons is one to refuse. -/
theorem Refuses.admitWrite {e : PropertyError} (h : x.Refuses isA name value e) :
    x.admitWrite isA name value = .error e := by
  cases h with
  | unknown hproperty hsetter => exact admitWrite_of_none hproperty hsetter
  | closed entry hproperty hclosed => exact admitWrite_of_closed hproperty hclosed
  | late entry hproperty hopen hlate => exact admitWrite_of_late hproperty hopen hlate
  | unfit entry hproperty hopen hearly cause hcheck =>
      obtain ⟨write, hwrite⟩ := admitWrite_of_open isA value hproperty hopen hearly
      rw [hwrite, hcheck]

/-- A write is refused for the first reason that there is. -/
theorem admitWrite_eq_error {e : PropertyError} :
    x.admitWrite isA name value = .error e ↔ x.Refuses isA name value e :=
  ⟨refuses_of_admitWrite, Refuses.admitWrite⟩

end Instance

/-! ## What reclaiming leaves alone -/

namespace World

/-- The parts of a world that no reclaiming changes. -/
structure SameFixtures (w v : World β) : Prop where
  registry : v.registry = w.registry
  loops : v.loops = w.loops
  actions : v.actions = w.actions
  groups : v.groups = w.groups

namespace SameFixtures

variable {u v w : World β}

theorem refl (w : World β) : SameFixtures w w :=
  ⟨rfl, rfl, rfl, rfl⟩

theorem trans (h : SameFixtures u v) (g : SameFixtures v w) : SameFixtures u w :=
  ⟨g.registry.trans h.registry, g.loops.trans h.loops, g.actions.trans h.actions,
    g.groups.trans h.groups⟩

theorem wake (w : World β) (waiter : Option Waiter) : SameFixtures w (w.wake waiter) := by
  unfold World.wake
  split
  · exact refl w
  · exact ⟨rfl, rfl, rfl, rfl⟩

theorem settle (w : World β) (e : EventId) (o : EventOutcome) : SameFixtures w (w.settle e o) := by
  refine settle_induction w e o (refl w) fun event _ _ => ?_
  have hwake := wake { w.modifyInstance event.owner
    (fun x => event.handlers.foldl Instance.disconnect x) with
      events := w.events.set e (event.settle o) } event.waiter
  exact ⟨hwake.registry, hwake.loops, hwake.actions, hwake.groups⟩

theorem dropInstance (w : World β) (i : InstanceId) : SameFixtures w (w.dropInstance i) :=
  ⟨rfl, rfl, rfl, rfl⟩

end SameFixtures

end World

namespace Machine

variable {client : Client σ β κ} {m : Machine σ β κ}

theorem sameFixtures_step (client : Client σ β κ) (m : Machine σ β κ) :
    World.SameFixtures (m.advance client).world (m.step client).world := by
  refine reclaim_induction client m (m.advance client)
    (P := World.SameFixtures (m.advance client).world) ?_ ?_ (.refl _)
  · exact fun v i h => h.trans (.dropInstance v i)
  · exact fun v e h => h.trans (.settle v e _)

/-- **Reclaiming leaves the instances that live on as they are.** -/
theorem Reachable.instance_of_step (hreach : m.Reachable client) {i : InstanceId} {y : Instance β}
    (hy : (m.step client).world.instance? i = some y) :
    (m.advance client).world.instance? i = some y := by
  obtain ⟨x, hx, hyx⟩ := (fades_step client m).instances i y hy
  -- an event that is abandoned has no handler left that could be disconnected
  obtain ⟨d, hd, hhandlers⟩ := hreach.bridged_advance.handlers_of_sheds (sheds_step client m)
    (World.estate?_eq hy)
  cases (World.estate?_eq hx).symm.trans hd
  have hsame : y.handlers = x.handlers := hhandlers
  rw [hx, hyx, hsame]

/-! ## Failing -/

/-- A command fails with the next step, and that is all that happens: no callback starts, and apart
from what the caller let go of, everything stays as it is. -/
structure Fails (client : Client σ β κ) (m : Machine σ β κ) (error : Error) : Prop where
  move : m.advance client = { m with control := .deliver (.failed error) }
  control : (m.step client).control = .deliver (.failed error)
  stack : (m.step client).stack = m.stack
  state : (m.step client).client = m.client
  suspended : (m.step client).suspended = m.suspended
  instances : ∀ i y, (m.step client).world.instance? i = some y → m.world.instance? i = some y
  timetables : ∀ c, (m.step client).world.timetable? c = m.world.timetable? c
  rosters : ∀ c, (m.step client).world.roster? c = m.world.roster? c
  fixtures : World.SameFixtures m.world (m.step client).world
  /-- If the caller still holds what it named in the command, nothing is reclaimed. -/
  whole : (∀ h ∈ m.control.handles,
      h ∈ client.keeps m.client ++ m.stack.flatMap (layerHandles client)) →
    m.step client = { m with control := .deliver (.failed error) }

theorem Reachable.fails (hreach : m.Reachable client) {error : Error}
    (hmove : m.advance client = { m with control := .deliver (.failed error) }) :
    m.Fails client error where
  move := hmove
  control := (step_fields client hmove).2.1
  stack := (step_fields client hmove).1
  state := (step_fields client hmove).2.2
  suspended := by
    rw [Machine.step, suspended_reclaim, hmove]
  instances i y hy := by
    have hbefore := hreach.instance_of_step hy
    rwa [hmove] at hbefore
  timetables c := by
    rw [(calm_step client m).timetable, hmove]
  rosters c := by
    rw [(calm_step client m).roster, hmove]
  fixtures := by
    have h := sameFixtures_step client m
    rwa [hmove] at h
  whole hheld := by
    refine step_of_tidy hmove (tidy_of_covered hreach.isTidy rfl rfl (fun h hmem => .inl ?_)
      (List.Subset.refl _))
    unfold rootHandles at hmem ⊢
    simp only [List.mem_append] at hmem hheld ⊢
    rcases hmem with (hkept | hnamed) | hstack
    · exact .inl (.inl hkept)
    · exact (hheld h hnamed).imp .inl id
    · exact .inr hstack

end Machine

/-! ## Writing -/

/-- A callback that a write to an instance starts: a setter, a handler or an effect. -/
def Invocation.Reacts (i : InstanceId) (inv : Invocation) : Prop :=
  inv.self = some i ∧
    ((∃ name, inv.role = .setter name) ∨ (∃ h, inv.role = .handler h) ∨
      ∃ property, inv.role = .effect property)

namespace Machine

variable {client : Client σ β κ} {m : Machine σ β κ} {base : List (Layer β κ)} {i : InstanceId}

/-- After everything else, a write is done. -/
theorem concludes_finishWrite {told : Reply β} (hm : m.control = .deliver told)
    (hs : m.stack = .operation (.finishWrite i) :: base) :
    m.Concludes client base (Invocation.Reacts i) (· = .done) :=
  .of_reply hm hs rfl rfl

/-- After the report, the effect runs, if there is one. -/
theorem concludes_runEffect {told : Reply β} {property : String} {effect : Option β} {value : Value}
    (hm : m.control = .deliver told)
    (hs : m.stack = .operation (.runEffect i property effect value) :: base) :
    m.Concludes client base (Invocation.Reacts i) (· = .done) := by
  cases effect with
  | none => exact .of_reply hm hs rfl rfl
  | some callback =>
      have hf := follows_resume client hm hs
      refine .of_step (hs ▸ Nat.lt_succ_self _) ?_
      refine .of_callback hf.control (hf.stack ▸ Nat.lt_succ_self _) ?_ (fun _ _ => nofun)
        fun m' outcome hs' hc' => ?_
      · exact ⟨rfl, .inr (.inr ⟨property, rfl⟩)⟩
      · exact concludes_finishWrite hc' (hs'.trans hf.stack)

/-- After a setter, the change is reported. -/
theorem concludes_reportChange {told : Reply β} {canonical : String}
    (hm : m.control = .deliver told)
    (hs : m.stack = .operation (.reportChange i canonical) :: base) :
    m.Concludes client base (Invocation.Reacts i) (· = .done) := by
  have hf := follows_resume client hm hs
  refine .of_step (hs ▸ Nat.lt_succ_self _) ?_
  refine .of_emission hf.control hf.stack (fun id args => ⟨rfl, .inr (.inl ⟨id, rfl⟩)⟩) ?_
  exact fun m' result hs' hc' => concludes_finishWrite hc' hs'

/-- A write that runs a setter. -/
theorem concludes_setter {w : World β} {callback : β} {name canonical : String} {value : Value}
    (hf : m.Follows (.invoke w callback { role := .setter name, self := some i, args := [value] }
      [.reportChange i canonical]) base) :
    m.Concludes client base (Invocation.Reacts i) (· = .done) := by
  refine .of_callback hf.control (hf.stack ▸ Nat.lt_succ_self _) ⟨rfl, .inl ⟨name, rfl⟩⟩
    (fun _ _ => nofun) fun m' outcome hs' hc' => ?_
  exact concludes_reportChange hc' (hs'.trans hf.stack)

/-- **A write that is admitted is done**, unless one of the callbacks that it starts hangs. -/
theorem concludes_write {name : String} {value : Value}
    (hm : m.control = .perform (.setProperty i name value)) {x : Instance β}
    (hx : m.world.instance? i = some x) {write : Instance.Write β}
    (hwrite : x.admitWrite m.world.isA name value = .ok write) :
    (m.step client).Concludes client m.stack (Invocation.Reacts i) (· = .done) := by
  have hf : (m.step client).Follows (m.world.writeProperty i name value) m.stack :=
    follows_perform client hm
  unfold World.writeProperty at hf
  rw [hx] at hf
  dsimp only at hf
  rw [hwrite] at hf
  cases write with
  | setter callback => exact concludes_setter hf
  | computed spec callback => exact concludes_setter hf
  | stored spec notify equality effect =>
      dsimp only at hf
      unfold World.storeValue at hf
      extract_lets config v changed at hf
      split at hf
      · refine .of_emission hf.control hf.stack (fun id args => ⟨rfl, .inr (.inl ⟨id, rfl⟩)⟩) ?_
        exact fun m' result hs' hc' => concludes_runEffect hc' hs'
      · exact concludes_runEffect hf.control hf.stack

/-- A write that is refused fails with the next step. -/
theorem advance_refused (client : Client σ β κ) {name : String} {value : Value}
    (hm : m.control = .perform (.setProperty i name value)) {x : Instance β}
    (hx : m.world.instance? i = some x) {e : PropertyError}
    (hwrite : x.admitWrite m.world.isA name value = .error e) :
    m.advance client = { m with control := .deliver (.failed (.property e)) } := by
  have hwritten : m.world.writeProperty i name value = .reply m.world (.failed (.property e)) := by
    unfold World.writeProperty
    rw [hx]
    dsimp only
    rw [hwrite]
  exact (advance_perform client hm).trans (congrArg (m.follow client m.stack) hwritten)

end Machine

/-- **A failed write changes nothing.** Whenever a write to an instance is asked for, be the
instance in construction, live or disposed, under any name and with any value: it fails exactly for
the first reason that there is to refuse it. If it fails, then with the next step, in which nothing
else happens; if not, it is done, unless a setter, a handler or an effect that it starts never
returns. -/
theorem failed_writes_change_nothing (client : Client σ β κ) (m : Machine σ β κ)
    (hreach : m.Reachable client) (i : InstanceId) (name : String) (value : Value)
    (hm : m.control = .perform (.setProperty i name value)) (x : Instance β)
    (hx : m.world.instance? i = some x) :
    (∀ e, (∃ k, m.Answers client (.setProperty i name value) (.failed (.property e)) k) ↔
      x.Refuses m.world.isA name value e) ∧
    (∀ error k, m.Answers client (.setProperty i name value) (.failed error) k →
      k = 1 ∧ (∃ e, error = .property e) ∧ m.Fails client error) ∧
    ((∀ e, ¬x.Refuses m.world.isA name value e) →
      (∀ reply k, m.Answers client (.setProperty i name value) reply k → reply = .done) ∧
        ((∃ k, m.Answers client (.setProperty i name value) .done k) ∨
          ∃ n callback inv, inv.Reacts i ∧ (m.after client n).Hangs client callback inv)) := by
  simp only [← Instance.admitWrite_eq_error]
  cases hwrite : x.admitWrite m.world.isA name value with
  | error e =>
      have hmove := Machine.advance_refused client hm hx hwrite
      obtain ⟨hstack, hcontrol, -⟩ := Machine.step_fields client hmove
      have hanswers : m.Answers client (.setProperty i name value) (.failed (.property e)) 1 :=
        .of_perform hm (fun i hpos hi => by omega) (congrArg List.length hstack) hcontrol
      refine ⟨fun e' => ⟨fun ⟨k, hk⟩ => ?_, fun h => ?_⟩, fun error k hk => ?_,
        fun hnone => absurd rfl (hnone e)⟩
      · cases (hk.unique hanswers).1
        rfl
      · cases h
        exact ⟨1, hanswers⟩
      · obtain ⟨herror, hone⟩ := hk.unique hanswers
        cases herror
        exact ⟨hone, ⟨e, rfl⟩, hreach.fails hmove⟩
  | ok write =>
      obtain ⟨hreplies, hdone⟩ := (Machine.concludes_write hm hx hwrite).answers hm
      refine ⟨fun e => ⟨fun ⟨k, hk⟩ => ?_, fun h => (by cases h)⟩, fun error k hk => ?_,
        fun _ => ⟨hreplies, hdone.imp (fun ⟨reply, k, hreply, hk⟩ => ⟨k, hreply ▸ hk⟩) id⟩⟩
      · cases hreplies _ k hk
      · cases hreplies _ k hk

/-- The error with which a write is refused. -/
def Instance.refusal? (x : Instance β) (isA : InstanceId → TypeHandle → Bool) (name : String)
    (value : Value) : Option PropertyError :=
  match x.admitWrite isA name value with
  | .error e => some e
  | .ok _ => none

theorem Instance.refuses_of_refusal? {x : Instance β} {isA : InstanceId → TypeHandle → Bool}
    {name : String} {value : Value} {e : PropertyError} (h : x.refusal? isA name value = some e) :
    x.Refuses isA name value e := by
  rw [← admitWrite_eq_error]
  unfold refusal? at h
  split at h
  · next e' hwrite =>
      cases h
      exact hwrite
  · cases h

set_option maxRecDepth 100000 in
/-- The owner of a card that was made is construct-only: the program is told so, and nothing else is
different in the next state. -/
theorem failed_writes_change_nothing_engraver :
    (engraverAfter 8).control = .perform (.setProperty ⟨1⟩ "owner" (.string "me")) ∧
      (engraverAfter 8).Fails engraver (.property (.constructOnly "Card" "owner")) ∧
      engraverAfter 9 = { engraverAfter 8 with
        control := .deliver (.failed (.property (.constructOnly "Card" "owner"))) } := by
  have hset : (engraverAfter 8).control = .perform (.setProperty ⟨1⟩ "owner" (.string "me")) :=
    Control.eq_of_write? (by decide +kernel)
  have hrefusal : ((engraverAfter 8).world.instance? ⟨1⟩).bind
      (·.refusal? (engraverAfter 8).world.isA "owner" (.string "me")) =
        some (.constructOnly "Card" "owner") := by
    decide +kernel
  obtain ⟨x, hx, hrefused⟩ := Option.bind_eq_some_iff.mp hrefusal
  obtain ⟨hreasons, hfails, -⟩ := failed_writes_change_nothing engraver (engraverAfter 8)
    ((Machine.Reachable.initial () 0).after 8) ⟨1⟩ "owner" (.string "me") hset x hx
  obtain ⟨k, hk⟩ := (hreasons _).mpr (Instance.refuses_of_refusal? hrefused)
  obtain ⟨-, -, hnothing⟩ := hfails _ k hk
  refine ⟨hset, hnothing, hnothing.whole fun h hmem => ?_⟩
  rw [hset] at hmem
  obtain rfl := List.mem_singleton.mp hmem
  exact List.mem_append_left _ (by decide)

end ObjectSystem
