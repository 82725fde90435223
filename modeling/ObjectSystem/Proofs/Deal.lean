import ObjectSystem.Proofs.Shedding
import ObjectSystem.Proofs.Run

/-!
# What a move does to estates

A move changes estates, the events that handlers settle and the emissions in progress in a few ways
only (`Deal`): most moves spare them; an instance is created with an empty estate; a value is
stored; a handler or a pair of event handlers is connected, one is disconnected, an instance is
disposed; an emission begins, gives one of its handlers a turn, or ends. `deal_advance` says that
every move is one of these. What reclaiming then takes away is said elsewhere
(`Machine.sheds_step`).
-/

namespace ObjectSystem

variable {σ β κ : Type}

open World (Spares connectEvent)
open Progress (Modest)

/-! ## Turns of handlers -/

/-- What a handler runs when it is called with some arguments, if it runs anything: the callback,
what it is passed, and whether its result counts. -/
def HandlerTarget.call? (args : List Value) : HandlerTarget β → Option (β × List Value × Bool)
  | .callback f => some (f, args, true)
  | .change f => some (f, [.string (Emission.changedName args)], false)
  | _ => none

/-- The event that a handler settles when it is called with some arguments, and how. -/
def HandlerTarget.outcome? (args : List Value) : HandlerTarget β → Option (EventId × EventOutcome)
  | .resolves event => some (event, .ok args)
  | .rejects event signal => some (event, .error (.rejected signal args))
  | _ => none

theorem HandlerTarget.event?_of_outcome? {target : HandlerTarget β} {args : List Value}
    {e : EventId} {o : EventOutcome} (h : target.outcome? args = some (e, o)) :
    target.event? = some e := by
  cases target with
  | resolves event =>
      cases h
      rfl
  | rejects event signal =>
      cases h
      rfl
  | callback f => cases h
  | change f => cases h

/-- A handler that settles an event runs nothing. -/
theorem HandlerTarget.call?_of_event? {target : HandlerTarget β} {e : EventId}
    (h : target.event? = some e) (args : List Value) : target.call? args = none := by
  cases target with
  | resolves event => rfl
  | rejects event signal => rfl
  | callback f => cases h
  | change f => cases h

namespace Emission

/-- An emission that is told a reply takes the result into account; the flag tells whether that ends
it. -/
def hear (e : Emission β) (reply : Reply β) : Emission β × Bool :=
  match reply with
  | .returned outcome =>
    let (result, ended) :=
      e.accumulator.accumulate e.result (if e.heeded then outcome.value? else none)
    ({ e with result }, ended)
  | _ => (e, false)

section
variable (e : Emission β) (reply : Reply β)

/-- All that changes is the result. -/
theorem hear_eq : (e.hear reply).1 = { e with result := (e.hear reply).1.result } := by
  cases reply with
  | returned outcome => rfl
  | _ => rfl

@[simp] theorem owner_hear : (e.hear reply).1.owner = e.owner := by
  rw [hear_eq]

@[simp] theorem args_hear : (e.hear reply).1.args = e.args := by
  rw [hear_eq]

@[simp] theorem accumulator_hear : (e.hear reply).1.accumulator = e.accumulator := by
  rw [hear_eq]

@[simp] theorem remaining_hear : (e.hear reply).1.remaining = e.remaining := by
  rw [hear_eq]

@[simp] theorem heeded_hear : (e.hear reply).1.heeded = e.heeded := by
  rw [hear_eq]

theorem resume_eq (w : World β) : e.resume w reply =
    if (e.hear reply).2 then .reply w (.value (e.hear reply).1.result)
    else (e.hear reply).1.next w := by
  cases reply with
  | returned outcome => rfl
  | _ => rfl

end

/-- How an emission goes on: it is over, or the next handler has its turn. That calls the handler if
it is still connected, be it a callback or one that settles an event, and passes it over if not. -/
inductive Turn (w : World β) (e : Emission β) : Progress β → Prop
  | ends (hs : e.remaining = []) : Turn w e (.reply w (.value e.result))
  | calls (h : Handler β) (rest : List (Handler β)) (callback : β) (args : List Value)
      (heeded : Bool) (hs : e.remaining = h :: rest)
      (hconnected : w.isConnected e.owner h.id = true)
      (hcall : h.target.call? e.args = some (callback, args, heeded)) :
      Turn w e (.invoke w callback { role := .handler h.id, self := some e.owner, args }
        [.emission { e with remaining := rest, heeded }])
  | settles (h : Handler β) (rest : List (Handler β)) (event : EventId) (o : EventOutcome)
      (hs : e.remaining = h :: rest) (hconnected : w.isConnected e.owner h.id = true)
      (hout : h.target.outcome? e.args = some (event, o)) :
      Turn w e (.proceed (w.settle event o) [.emission { e with remaining := rest }])
  | passes (h : Handler β) (rest : List (Handler β)) (hs : e.remaining = h :: rest)
      (hgone : w.isConnected e.owner h.id = false) :
      Turn w e (.proceed w [.emission { e with remaining := rest }])

theorem turn_next (w : World β) (e : Emission β) : Turn w e (e.next w) := by
  unfold next
  split
  · next hnil => exact .ends hnil
  · next h rest hs =>
      dsimp only
      split
      · next hconnected =>
          split
          · next callback htarget =>
              exact .calls h rest callback e.args true hs hconnected (by rw [htarget]; rfl)
          · next callback htarget =>
              exact .calls h rest callback _ false hs hconnected (by rw [htarget]; rfl)
          · next event htarget =>
              exact .settles h rest event _ hs hconnected (by rw [htarget]; rfl)
          · next event signal htarget =>
              exact .settles h rest event _ hs hconnected (by rw [htarget]; rfl)
      · next hgone => exact .passes h rest hs (by simpa using hgone)

end Emission

/-! ## Emissions in progress -/

def Layer.emission? : Layer β κ → Option (Emission β)
  | .callback _ _ => none
  | .operation f => f.emission?

namespace Machine

/-- The emissions in progress, the innermost first. -/
def emissions (m : Machine σ β κ) : List (Emission β) :=
  m.stack.filterMap Layer.emission?

theorem emissions_follow (client : Client σ β κ) (m : Machine σ β κ) (stack : List (Layer β κ))
    (p : Progress β) : (m.follow client stack p).emissions =
      p.frames.filterMap Frame.emission? ++ stack.filterMap Layer.emission? := by
  show (p.frames.map Layer.operation ++ stack).filterMap Layer.emission? = _
  rw [List.filterMap_append, List.filterMap_map]
  rfl

theorem emissions_step (client : Client σ β κ) (m : Machine σ β κ) :
    (m.step client).emissions = (m.advance client).emissions := by
  rw [emissions, stack_step]
  rfl

theorem emissions_of_frames (client : Client σ β κ) (m : Machine σ β κ) (stack : List (Layer β κ))
    {p : Progress β} (hf : ∀ f ∈ p.frames, f.emission? = none) :
    (m.follow client stack p).emissions = stack.filterMap Layer.emission? := by
  rw [emissions_follow, List.filterMap_eq_nil_iff.mpr hf, List.nil_append]

end Machine

/-! ## Handlers that are connected -/

/-- The signal and the detail that a handler listens to. -/
def Handler.address (h : Handler β) : String × Option String :=
  (h.signal, h.detail)

/-- The signal and the detail of a name. -/
def Instance.addressOf (name : String) : String × Option String :=
  ((Name.splitDetail name).1, detailKey (Name.splitDetail name).1 (Name.splitDetail name).2)

/-- What connecting leads to: a handler behind all others, under the next identity. -/
theorem Instance.estate_of_connect {x y : Instance β} {signal : String} {target : HandlerTarget β}
    {id : HandlerId} (hc : x.connect signal target = .ok (y, id)) :
    ∃ h : Handler β, h.address = addressOf signal ∧ h.target = target ∧ h.id = id ∧
      id.number = x.nextHandler ∧
      y.estate = { x.estate with
        handlers := x.handlers ++ [h], nextHandler := x.nextHandler + 1 } := by
  unfold connect at hc
  dsimp only at hc
  split at hc
  · cases hc
  · cases hc
    exact ⟨{ id := ⟨x.nextHandler⟩, signal := _, detail := detailKey _ _, target },
      rfl, rfl, rfl, rfl, rfl⟩

/-- Connecting the handlers of an event is connecting them one after the other. -/
theorem World.connects_of_connectEvent {x y : Instance β} {event : EventId} {resolve : String}
    {reject : Option String} {ids : List HandlerId}
    (hc : connectEvent x event resolve reject = .ok (y, ids)) :
    ∃ z first, x.connect resolve (.resolves event) = .ok (z, first) ∧
      (reject = none ∧ y = z ∧ ids = [first] ∨
        ∃ signal second, reject = some signal ∧
          z.connect signal (.rejects event signal) = .ok (y, second) ∧ ids = [first, second]) := by
  unfold connectEvent at hc
  cases hfirst : x.connect resolve (.resolves event) with
  | error e =>
      rw [hfirst] at hc
      cases hc
  | ok result =>
      obtain ⟨z, first⟩ := result
      refine ⟨z, first, rfl, ?_⟩
      cases reject with
      | none =>
          rw [hfirst] at hc
          cases hc
          exact .inl ⟨rfl, rfl, rfl⟩
      | some signal =>
          cases hsecond : z.connect signal (.rejects event signal) with
          | error e =>
              simp only [bind, Except.bind, hfirst, hsecond] at hc
              cases hc
          | ok result =>
              obtain ⟨z', second⟩ := result
              simp only [bind, Except.bind, hfirst, hsecond] at hc
              cases hc
              exact .inr ⟨signal, second, rfl, hsecond, rfl⟩

/-! ## Deals -/

/-- A move that puts an emission on top of the stack, to go on with the next move. -/
structure Machine.Begins (m m' : Machine σ β κ) (e : Emission β) : Prop where
  emissions : m'.emissions = e :: m.emissions
  stack : ∃ stack, m'.stack = .operation (.emission e) :: stack
  control : m'.control = .deliver .proceed

/-- What a move does to estates, events and the emissions in progress. -/
inductive Deal (m m' : Machine σ β κ) : Prop
  /-- Nothing of that kind. -/
  | spares (hw : Spares m.world m'.world) (hs : m'.emissions = m.emissions)
      (hc : m'.control.callsNone)
  /-- An instance is created. -/
  | creates (c : Construction β) (hm : m.control = .perform (.construct c))
      (hw : Spares (m.world.addInstance c.ofClass c.context).1 m'.world)
      (hs : m'.emissions = m.emissions) (hc : m'.control.callsNone)
  /-- A property value is stored, and its change may be reported. -/
  | stores (i : InstanceId) (x : Instance β) (name : String) (value : Value) (spec : PropertySpec)
      (notify : Option NotifyPolicy) (equality : Option ObjectEquality) (effect : Option β)
      (hx : m.world.instance? i = some x)
      (hwrite : x.admitWrite m.world.isA name value = .ok (.stored spec notify equality effect))
      (hw : m'.world = m.world.modifyInstance i (·.store spec.name value))
      (hs : m'.emissions = m.emissions ∨
        m.Begins m' (m'.world.changeEmission i spec.canonicalName))
      (hc : m'.control.callsNone)
  /-- An emission begins. -/
  | emits (i : InstanceId) (signal : String) (detail : Option String) (args : List Value)
      (accumulator : Accumulator) (hw : m'.world = m.world)
      (hs : m.Begins m' (m.world.emissionOf i signal detail args accumulator))
      (hc : m'.control.callsNone)
  /-- A handler is connected. -/
  | connects (i : InstanceId) (x y : Instance β) (signal : String) (target : HandlerTarget β)
      (h : HandlerId) (hx : m.world.instance? i = some x)
      (hconnect : x.connect signal target = .ok (y, h)) (htarget : target.event? = none)
      (hw : m'.world = m.world.modifyInstance i fun _ => y) (hs : m'.emissions = m.emissions)
      (hc : m'.control.callsNone)
  /-- An event is awaited. -/
  | awaits (i : InstanceId) (x y : Instance β) (resolve : String) (reject : Option String)
      (ids : List HandlerId) (hx : m.world.instance? i = some x)
      (hconnect : connectEvent x ⟨m.world.events.entries.length⟩ resolve reject = .ok (y, ids))
      (hw : m'.world = { m.world.modifyInstance i (fun _ => y) with
        events := (m.world.events.add ⟨m.world.events.entries.length⟩
          { owner := i, handlers := [] }).set ⟨m.world.events.entries.length⟩
            { owner := i, handlers := ids } })
      (hs : m'.emissions = m.emissions) (hc : m'.control.callsNone)
  /-- A handler is disconnected. -/
  | disconnects (i : InstanceId) (h : HandlerId)
      (hw : m'.world = m.world.modifyInstance i (·.disconnect h))
      (hs : m'.emissions = m.emissions) (hc : m'.control.callsNone)
  /-- An instance is disposed. -/
  | disposes (i : InstanceId) (hw : m'.world = m.world.dispose i)
      (hs : m'.emissions = m.emissions) (hc : m'.control.callsNone)
  /-- The innermost emission ends. -/
  | ends (e : Emission β) (hw : m'.world = m.world) (hs : m.emissions = e :: m'.emissions)
      (hc : m'.control.callsNone)
  /-- The innermost emission calls a callback or passes a handler over. -/
  | turns (e e' : Emission β) (es : List (Emission β)) (h : Handler β)
      (hs : m.emissions = e :: es) (hs' : m'.emissions = e' :: es) (howner : e'.owner = e.owner)
      (hremaining : e.remaining = h :: e'.remaining) (hw : m'.world = m.world)
  /-- The innermost emission calls a handler that settles an event. -/
  | settles (e e' : Emission β) (stack : List (Layer β κ)) (reply : Reply β) (h : Handler β)
      (event : EventId) (o : EventOutcome) (hm : m.control = .deliver reply)
      (hs : m.stack = .operation (.emission e) :: stack)
      (hs' : m'.stack = .operation (.emission e') :: stack) (howner : e'.owner = e.owner)
      (hremaining : e.remaining = h :: e'.remaining)
      (hconnected : m.world.isConnected e.owner h.id = true)
      (hout : h.target.outcome? e.args = some (event, o))
      (hw : m'.world = m.world.settle event o) (hc : m'.control.callsNone)

section Deal

variable (client : Client σ β κ) {m : Machine σ β κ}

theorem deal_of_modest {p : Progress β} {stack : List (Layer β κ)} (hp : Modest m.world p)
    (hs : stack.filterMap Layer.emission? = m.emissions) : Deal m (m.follow client stack p) :=
  .spares hp.spares ((m.emissions_of_frames client stack hp.frames).trans hs) hp.control

theorem deal_of_reply {v : World β} (hw : Spares m.world v) (r : Reply β) :
    Deal m (m.follow client m.stack (.reply v r)) :=
  deal_of_modest client (.reply hw r) rfl

theorem deal_construct {c : Construction β} (hm : m.control = .perform (.construct c)) :
    Deal m (m.follow client m.stack (m.world.construct c)) := by
  unfold World.construct
  split
  · exact deal_of_reply client (.refl _) _
  · dsimp only
    have hchildren (v : World β) (i : InstanceId) (known : List (String × InstanceId)) :
        Spares v ((v.presetFields i c.fields).bindChildren i known) :=
      (World.spares_presetFields v i _).trans (World.spares_bindChildren _ i _)
    split
    · refine .creates c hm ?_ ?_ trivial
      · exact (hchildren _ _ _).trans (World.spares_initializeLevels _ _ _)
      · exact m.emissions_of_frames client m.stack (by simp [Progress.proceed, Frame.emission?])
    · refine .creates c hm ?_ ?_ trivial
      · exact hchildren _ _ _
      · exact m.emissions_of_frames client m.stack (by simp [Frame.emission?])

theorem deal_writeProperty (i : InstanceId) (name : String) (value : Value) :
    Deal m (m.follow client m.stack (m.world.writeProperty i name value)) := by
  refine World.writeProperty_cases (P := fun p => Deal m (m.follow client m.stack p)) m.world i name
    value ?_ ?_ ?_ ?_ ?_
  · exact fun _ => deal_of_reply client (.refl _) _
  · exact fun x e _ _ => deal_of_reply client (.refl _) _
  · exact fun x callback _ _ =>
      deal_of_modest client (.invoke (.refl _) rfl (by simp [Frame.emission?])) rfl
  · exact fun x spec callback _ _ =>
      deal_of_modest client (.invoke (.refl _) rfl (by simp [Frame.emission?])) rfl
  · intro x spec notify equality effect hx hwrite
    refine World.storeValue_cases (P := fun p => Deal m (m.follow client m.stack p)) m.world i x spec
      notify equality effect value ?_ ?_
    · refine .stores i x name value spec notify equality effect hx hwrite rfl (.inr ?_) trivial
      exact ⟨m.emissions_follow client m.stack _, ⟨_, rfl⟩, rfl⟩
    · refine .stores i x name value spec notify equality effect hx hwrite rfl (.inl ?_) trivial
      exact m.emissions_follow client m.stack _

/-- A change is reported under a name. -/
theorem deal_reportChange {stack : List (Layer β κ)}
    (hs : stack.filterMap Layer.emission? = m.emissions) (i : InstanceId) (name : String) :
    Deal m (m.follow client stack (m.world.reportChange i name)) := by
  refine .emits i notifySignal (some name) [.string name] SignalSpec.notify.accumulator rfl
    ⟨?_, ⟨_, rfl⟩, rfl⟩ trivial
  rw [m.emissions_follow, hs]
  rfl

theorem deal_notify (i : InstanceId) (name : String) :
    Deal m (m.follow client m.stack (m.world.notify i name)) := by
  unfold World.notify
  split
  · exact deal_of_reply client (.refl _) _
  · split
    · exact deal_of_reply client (.refl _) _
    · exact deal_reportChange client rfl i _

theorem deal_emit (i : InstanceId) (detailed : String) (args : List Value) :
    Deal m (m.follow client m.stack (m.world.emit i detailed args)) := by
  unfold World.emit
  split
  · exact deal_of_reply client (.refl _) _
  · dsimp only
    split
    · exact deal_of_reply client (.refl _) _
    · next spec _ =>
        split
        · exact deal_of_reply client (.refl _) _
        · exact .emits i (Name.splitDetail detailed).1
            (Instance.detailKey (Name.splitDetail detailed).1 (Name.splitDetail detailed).2) args
            spec.accumulator rfl ⟨m.emissions_follow client m.stack _, ⟨_, rfl⟩, rfl⟩ trivial

theorem deal_connect (i : InstanceId) (signal : String) {target : HandlerTarget β}
    (htarget : target.event? = none) :
    Deal m (m.follow client m.stack (m.world.connect i signal target)) := by
  unfold World.connect
  split
  · exact deal_of_reply client (.refl _) _
  · next x hx =>
      split
      · exact deal_of_reply client (.refl _) _
      · next y h hconnect =>
          exact .connects i x y signal target h hx hconnect htarget rfl
            (m.emissions_follow client m.stack _) trivial

theorem deal_disconnect (i : InstanceId) (h : HandlerId) :
    Deal m (m.follow client m.stack (m.world.disconnect i h)) := by
  unfold World.disconnect
  split
  · exact .disconnects i h rfl (m.emissions_follow client m.stack _) trivial
  · exact deal_of_reply client (.refl _) _

theorem deal_awaitEvent (i : InstanceId) (resolve : String) (reject : Option String) :
    Deal m (m.follow client m.stack (m.world.awaitEvent i resolve reject)) := by
  unfold World.awaitEvent
  split
  · exact deal_of_reply client (.refl _) _
  · next x hx =>
      dsimp only
      split
      · exact deal_of_reply client (.refl _) _
      · next y ids hconnect =>
          exact .awaits i x y resolve reject ids hx hconnect rfl
            (m.emissions_follow client m.stack _) trivial

theorem deal_perform {command : Command β} (hm : m.control = .perform command) :
    Deal m (m.follow client m.stack (m.world.perform command)) := by
  cases hmodest : command.isModest with
  | true => exact deal_of_modest client (World.modest_perform _ hmodest) rfl
  | false =>
      cases command with
      | construct c => exact deal_construct client hm
      | setProperty i name value => exact deal_writeProperty client i name value
      | notify i name => exact deal_notify client i name
      | dispose i => exact .disposes i rfl (m.emissions_follow client m.stack _) trivial
      | connect i signal callback => exact deal_connect client i signal rfl
      | connectNotify i property callback => exact deal_connect client i _ rfl
      | disconnect i h => exact deal_disconnect client i h
      | emit i signal args => exact deal_emit client i signal args
      | awaitEvent i resolve reject => exact deal_awaitEvent client i resolve reject
      | _ => cases hmodest

theorem deal_emission {e : Emission β} {reply : Reply β} {stack : List (Layer β κ)}
    (hm : m.control = .deliver reply) (hs : m.stack = .operation (.emission e) :: stack) :
    Deal m (m.follow client stack (e.resume m.world reply)) := by
  have hes : m.emissions = e :: stack.filterMap Layer.emission? := by
    rw [Machine.emissions, hs]
    rfl
  rw [e.resume_eq]
  split
  · -- the answer ends the emission
    refine .ends e rfl ?_ trivial
    rw [hes, m.emissions_follow]
    rfl
  · have hturn := Emission.turn_next m.world (e.hear reply).1
    generalize (e.hear reply).1.next m.world = p at hturn
    cases hturn with
    | ends hnil =>
        refine .ends e rfl ?_ trivial
        rw [hes, m.emissions_follow]
        rfl
    | calls h rest callback args heeded hcons hconnected hcall =>
        refine .turns e { (e.hear reply).1 with remaining := rest, heeded } _ h hes ?_
          (e.owner_hear reply) ((e.remaining_hear reply).symm.trans hcons) rfl
        exact m.emissions_follow client stack _
    | settles h rest event o hcons hconnected hout =>
        refine .settles e { (e.hear reply).1 with remaining := rest } stack reply h event o hm hs
          rfl (e.owner_hear reply) ((e.remaining_hear reply).symm.trans hcons) ?_ ?_ rfl trivial
        · rw [← e.owner_hear reply]
          exact hconnected
        · rw [← e.args_hear reply]
          exact hout
    | passes h rest hcons hgone =>
        refine .turns e { (e.hear reply).1 with remaining := rest } _ h hes ?_
          (e.owner_hear reply) ((e.remaining_hear reply).symm.trans hcons) rfl
        exact m.emissions_follow client stack _

theorem deal_resume {frame : Frame β} {reply : Reply β} {stack : List (Layer β κ)}
    (hm : m.control = .deliver reply) (hs : m.stack = .operation frame :: stack) :
    Deal m (m.follow client stack (frame.resume m.world reply)) := by
  cases hmodest : frame.isModest with
  | true =>
      refine deal_of_modest client (World.modest_resume _ hmodest reply) ?_
      have hnone : frame.emission? = none := by
        cases frame <;> first | rfl | cases hmodest
      rw [Machine.emissions, hs, List.filterMap_cons]
      simp [Layer.emission?, hnone]
  | false =>
      cases frame with
      | reportChange i name =>
          refine deal_reportChange client ?_ i name
          rw [Machine.emissions, hs]
          rfl
      | emission e => exact deal_emission client hm hs
      | _ => cases hmodest

/-- A callback on top of the stack makes its move. -/
theorem deal_move {rest : κ} {inv : Invocation} {stack : List (Layer β κ)}
    (hs : m.stack = .callback rest inv :: stack) (state : σ) (next : Move β κ) :
    Deal m (Machine.move { m with client := state } stack inv next) := by
  have hes : m.emissions = stack.filterMap Layer.emission? := by
    rw [Machine.emissions, hs]
    rfl
  cases next with
  | finish outcome => exact .spares (.refl _) hes.symm trivial
  | command command rest' => exact .spares (.refl _) hes.symm trivial
  | pause rest' => exact .spares (.refl _) hes.symm trivial
  | await event rest' =>
      unfold Machine.move Machine.awaitEvent
      dsimp only
      split
      · next c task hrole =>
          have htake := World.spares_takeOutcome m.world event
          split
          · next w outcome hw =>
              rw [hw] at htake
              exact .spares htake hes.symm trivial
          · next w hw =>
              rw [hw] at htake
              refine .spares (htake.trans ?_) hes.symm trivial
              refine Spares.trans ?_ (World.spares_modifyContext _ _ _)
              exact World.spares_modifyEvent w event fun _ => ⟨rfl, rfl, rfl, .inl rfl⟩
      · exact .spares (.refl _) hes.symm trivial

/-- Every move deals with estates in one of these ways. -/
theorem deal_advance (m : Machine σ β κ) : Deal m (m.advance client) := by
  unfold Machine.advance
  split
  · next command hm => exact deal_perform client hm
  · exact .spares (.refl _) rfl trivial
  · -- a task is resumed, and nothing but its own callback goes on
    next c task outcome hm =>
      unfold Machine.continueTask
      dsimp only
      split
      · exact .spares (.refl _) rfl trivial
      · exact .spares (.refl _) rfl trivial
  · next reply hm =>
      split
      · exact .spares (.refl _) rfl (by rw [hm]; trivial)
      · next rest inv stack hs => exact deal_move hs _ _
      · next frame stack hs => exact deal_resume client hm hs

end Deal

end ObjectSystem
