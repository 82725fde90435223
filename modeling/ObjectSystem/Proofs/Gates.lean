import Mathlib
import ObjectSystem.Proofs.Bypass

/-!
# Gates in a run

A step opens the gate of a new instance, closes the gate of an instance whose last construct property
has been written, and leaves all others as they are (`Machine.Gating`, `Machine.gating_advance`).
Fittings change with commands only (`Machine.fittings_advance`).
Reclaiming takes instances and handlers away and nothing else (`World.Fades`).
-/

namespace ObjectSystem

variable {σ β κ : Type}

namespace World

/-! ## Gates that open and close -/

section
variable (w : World β)

/-- The gate of an instance is closed. -/
theorem gates_close (i j : InstanceId) :
    (w.modifyInstance i fun x => { x with constructing := false }).gates j =
      if j = i then (w.gates j).map fun _ => false else w.gates j := by
  unfold gates
  rw [instance?_modifyInstance]
  split
  · cases w.instance? j <;> rfl
  · rfl

/-- The gate of a new instance is open. -/
theorem gates_addInstance (ofClass : Class β) (c : ContextId) (i : InstanceId) :
    (w.addInstance ofClass c).1.gates i =
      (w.gates i).or (if i = ⟨w.nextInstance⟩ then some true else none) := by
  have hfind : (w.addInstance ofClass c).1.instance? i =
      (w.instance? i).or
        (if i = ⟨w.nextInstance⟩ then some { ofClass, context := c } else none) :=
    Table.find?_add _ _ _ _
  unfold gates
  rw [hfind, Option.map_or]
  split <;> rfl

/-- A construction that begins makes an instance, unless its class is abstract. -/
theorem bypasses_construct (con : Construction β) :
    Bypasses (if con.ofClass.own.flags.isAbstract then w
      else (w.addInstance con.ofClass con.context).1) (w.construct con).world := by
  unfold construct
  split
  · exact .refl w
  · dsimp only
    have hbound (known : List (String × InstanceId)) :=
      (bypasses_presetFields (w.addInstance con.ofClass con.context).1 ⟨w.nextInstance⟩
        con.fields).trans (bypasses_presetFields _ ⟨w.nextInstance⟩
          (known.map fun entry => (childField entry.1, .object (some entry.2))))
    split
    · exact (hbound _).trans (bypasses_initializeLevels _ _ _)
    · exact hbound _

/-- A construction may close the gate when no property is left to be written. -/
theorem bypasses_continueConstructing (i : InstanceId) (properties : List (String × Value))
    (reply : Reply β) :
    Bypasses w (w.continueConstructing i properties reply).world ∨
      properties = [] ∧ (w.continueConstructing i properties reply).world =
        w.modifyInstance i fun x => { x with constructing := false } := by
  unfold continueConstructing
  split
  · exact .inl (.refl w)
  · split
    · exact .inl (.refl w)
    · split
      · exact .inl (.refl w)
      · exact .inr ⟨rfl, rfl⟩

theorem gates_checkLoop (l : LoopId) : (w.checkLoop l).world.gates = w.gates := by
  unfold checkLoop
  split
  · rfl
  · split <;> rfl

theorem gates_continueLoop (l : LoopId) (reply : Reply β) :
    (w.continueLoop l reply).world.gates = w.gates := by
  unfold continueLoop
  split
  · exact gates_checkLoop w l
  · split
    · rfl
    · split
      · rfl
      · split
        · rfl
        · split
          · exact gates_checkLoop w l
          · rfl

end

/-! ## Reclaiming -/

/-- Instances are dropped or lose handlers; apart from these they stay what they are, and so do
loops. -/
structure Fades (w v : World β) : Prop where
  instances : ∀ i y, v.instance? i = some y →
    ∃ x, w.instance? i = some x ∧ y = { x with handlers := y.handlers }
  loops : v.loops = w.loops

namespace Fades

variable {u v w : World β}

theorem refl (w : World β) : Fades w w :=
  ⟨fun _ y hy => ⟨y, hy, rfl⟩, rfl⟩

theorem trans (h : Fades u v) (g : Fades v w) : Fades u w where
  instances i z hz := by
    obtain ⟨y, hy, hzy⟩ := g.instances i z hz
    obtain ⟨x, hx, hyx⟩ := h.instances i y hy
    refine ⟨x, hx, ?_⟩
    rw [hzy, hyx]
  loops := g.loops.trans h.loops

theorem gates (h : Fades w v) {i : InstanceId} {b : Bool} (hb : v.gates i = some b) :
    w.gates i = some b := by
  obtain ⟨y, hy, rfl⟩ := Option.map_eq_some_iff.mp hb
  obtain ⟨x, hx, hyx⟩ := h.instances i y hy
  rw [gates_eq hx, hyx]

end Fades

/-- Disconnecting handlers leaves the rest of an instance alone. -/
theorem disconnectAll_eq (ids : List HandlerId) (x : Instance β) :
    ids.foldl Instance.disconnect x =
      { x with handlers := (ids.foldl Instance.disconnect x).handlers } := by
  induction ids generalizing x with
  | nil => rfl
  | cons id ids ih =>
      rw [List.foldl_cons, ih]
      rfl

theorem instance?_wake (w : World β) (waiter : Option Waiter) (i : InstanceId) :
    (w.wake waiter).instance? i = w.instance? i := by
  unfold wake
  split <;> rfl

theorem fades_settle (w : World β) (e : EventId) (outcome : EventOutcome) :
    Fades w (w.settle e outcome) := by
  refine ⟨?_, (sidesteps_settle w e outcome).loops⟩
  refine settle_induction w e outcome (fun i y hy => ⟨y, hy, rfl⟩) fun event _ _ i y hy => ?_
  replace hy := (instance?_wake _ event.waiter i).symm.trans hy
  change (w.modifyInstance event.owner
    fun x => event.handlers.foldl Instance.disconnect x).instance? i = some y at hy
  rw [instance?_modifyInstance] at hy
  split at hy
  · obtain ⟨x, hx, rfl⟩ := Option.map_eq_some_iff.mp hy
    exact ⟨x, hx, disconnectAll_eq _ x⟩
  · exact ⟨y, hy, rfl⟩

theorem fades_dropInstance (w : World β) (i : InstanceId) : Fades w (w.dropInstance i) := by
  refine ⟨fun j y hy => ?_, rfl⟩
  rw [instance?_dropInstance] at hy
  split at hy
  · cases hy
  · exact ⟨y, hy, rfl⟩

end World

open World (Fades KeepsFittings Sidesteps)

namespace Machine

variable (client : Client σ β κ)

theorem fades_step (m : Machine σ β κ) :
    Fades (m.advance client).world (m.step client).world := by
  refine reclaim_induction client m (m.advance client) (P := Fades (m.advance client).world)
    ?_ ?_ (.refl _)
  · exact fun v i h => h.trans (World.fades_dropInstance v i)
  · exact fun v e h => h.trans (World.fades_settle v e _)

/-! ## Moves -/

/-- A move performs a command, resumes one of the few operations that have to do with gates and
loops, or sidesteps everything. -/
inductive Passing (m m' : Machine σ β κ) : Prop
  | sidesteps (h : Sidesteps m.world m'.world)
  | performs (command : Command β) (hm : m.control = .perform command)
      (h : m'.world = (m.world.perform command).world)
  | resumes (frame : Frame β) (reply : Reply β) (stack : List (Layer β κ))
      (hm : m.control = .deliver reply) (hs : m.stack = .operation frame :: stack)
      (hframe : frame.bypasses = false) (h : m'.world = (frame.resume m.world reply).world)

theorem sidesteps_move (m : Machine σ β κ) (stack : List (Layer β κ)) (inv : Invocation)
    (next : Move β κ) : Sidesteps m.world (m.move stack inv next).world := by
  unfold move awaitEvent
  split
  · exact .refl _
  · exact .refl _
  · next event rest =>
      dsimp only
      split
      · have htake := m.world.sidesteps_takeOutcome event
        split
        · next v outcome htaken =>
            rw [htaken] at htake
            exact htake
        · next v htaken =>
            rw [htaken] at htake
            exact htake.trans (.of_eq rfl rfl rfl rfl)
      · exact .refl _
  · exact .refl _

theorem passing_advance (m : Machine σ β κ) : Passing m (m.advance client) := by
  cases hm : m.control with
  | perform command =>
      rw [advance_perform client hm]
      exact .performs command hm rfl
  | invoke callback inv =>
      refine .sidesteps ?_
      unfold advance
      rw [hm]
      exact .refl _
  | continueTask c task outcome =>
      refine .sidesteps ?_
      unfold advance continueTask
      rw [hm]
      dsimp only
      split <;> exact .refl _
  | deliver reply =>
      rcases hs : m.stack with _ | ⟨layer, stack⟩
      · refine .sidesteps ?_
        unfold advance
        rw [hm]
        dsimp only
        rw [hs]
        exact .refl _
      · cases layer with
        | callback rest inv =>
            refine .sidesteps ?_
            unfold advance
            rw [hm]
            dsimp only
            rw [hs]
            exact (sidesteps_move { m with client := (client.resume m.world m.client rest reply).1 }
              stack inv _)
        | operation frame =>
            rw [advance_resume client hm hs]
            cases hframe : frame.bypasses with
            | true => exact .sidesteps (World.sidesteps_resume _ hframe reply)
            | false => exact .resumes frame reply stack hm hs hframe rfl

/-- What a move does to the gates. -/
inductive Gating (m m' : Machine σ β κ) : Prop
  /-- Nothing. -/
  | keeps (h : m'.world.gates = m.world.gates)
  /-- A new instance has its gate open. -/
  | creates (con : Construction β) (hm : m.control = .perform (.construct con))
      (h : m'.world.gates = (m.world.addInstance con.ofClass con.context).1.gates)
  /-- The last construct property of an instance has been written. -/
  | closes (i : InstanceId) (reply : Reply β) (stack : List (Layer β κ))
      (hm : m.control = .deliver reply) (hs : m.stack = .operation (.constructing i []) :: stack)
      (h : m'.world.gates =
        (m.world.modifyInstance i fun x => { x with constructing := false }).gates)

theorem gating_advance (m : Machine σ β κ) : Gating m (m.advance client) := by
  cases passing_advance client m with
  | sidesteps h => exact .keeps h.gates
  | performs command hm h =>
      cases command with
      | construct con =>
          have hgates : (m.advance client).world.gates = _ :=
            (congrArg World.gates h).trans (m.world.bypasses_construct con).gates
          split at hgates
          · exact .keeps hgates
          · exact .creates con hm hgates
      | newLoop | runLoop | quitLoop => exact .keeps ((congrArg World.gates h).trans rfl)
      | _ => exact .keeps ((congrArg World.gates h).trans (World.bypasses_perform _ rfl).gates)
  | resumes frame reply stack hm hs hframe h =>
      cases frame with
      | constructing i properties =>
          rcases m.world.bypasses_continueConstructing i properties reply with hb | ⟨rfl, hclose⟩
          · exact .keeps ((congrArg World.gates h).trans hb.gates)
          · exact .closes i reply stack hm hs (congrArg World.gates (h.trans hclose))
      | loop l => exact .keeps ((congrArg World.gates h).trans (m.world.gates_checkLoop l))
      | looped l => exact .keeps ((congrArg World.gates h).trans (m.world.gates_continueLoop l reply))
      | _ => cases hframe

/-- A move keeps fittings, or it performs a command that has to do with them. -/
theorem fittings_advance (m : Machine σ β κ) :
    KeepsFittings m.world (m.advance client).world ∨
      ∃ command, m.control = .perform command ∧ command.refits = true ∧
        (m.advance client).world = (m.world.perform command).world := by
  cases passing_advance client m with
  | sidesteps h => exact .inl h.toKeepsFittings
  | performs command hm h =>
      cases hrefits : command.refits with
      | false => exact .inl (h ▸ World.keepsFittings_perform _ hrefits)
      | true => exact .inr ⟨command, hm, hrefits, h⟩
  | resumes frame reply stack hm hs hframe h =>
      exact .inl (h ▸ World.keepsFittings_resume _ frame reply)

end Machine

end ObjectSystem
