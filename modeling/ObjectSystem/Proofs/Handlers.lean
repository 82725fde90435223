import ObjectSystem.Proofs.Deal
import ObjectSystem.Proofs.Deferral

/-!
# Handlers over time

An instance gives its handlers ascending identities and never gives one out twice, although handlers
come and go: a step drops handlers, or connects new ones behind the old ones (`Estate.Extends`,
`Machine.evolves_step`). In every state of a run the handlers of an instance are therefore in order
of connection (`Reachable.ordered`), and an identity that was given to a handler stands for that
handler ever after (`World.Knows`).
-/

namespace ObjectSystem

variable {σ β κ : Type}

/-! ## Estates over time -/

/-- Handlers are in order of connection, and their identities were given out. -/
structure Estate.Ordered (d : Estate β) : Prop where
  ascending : d.handlers.Pairwise fun g h => g.id.number < h.id.number
  given : ∀ h ∈ d.handlers, h.id.number < d.nextHandler

/-- Two handlers of one identity are the same. -/
theorem Estate.Ordered.eq_of_id {d : Estate β} (hd : d.Ordered) {g h : Handler β}
    (hg : g ∈ d.handlers) (hh : h ∈ d.handlers) (hid : g.id = h.id) : g = h := by
  have hascending := hd.ascending
  generalize d.handlers = hs at hg hh hascending
  induction hascending with
  | nil => cases hg
  | @cons k hs hless _ ih =>
      have hne (f : Handler β) (hf : f ∈ hs) : f.id ≠ k.id := by
        intro heq
        have := hless f hf
        rw [heq] at this
        omega
      rcases List.mem_cons.mp hg with rfl | hgs <;> rcases List.mem_cons.mp hh with rfl | hhs
      · rfl
      · exact absurd hid.symm (hne h hhs)
      · exact absurd hid (hne g hgs)
      · exact ih hgs hhs

/-- Handlers may go, and new ones come under identities that were not given out before. -/
structure Estate.Extends (d d' : Estate β) : Prop where
  nextHandler : d.nextHandler ≤ d'.nextHandler
  old : ∀ h ∈ d'.handlers, h.id.number < d.nextHandler → h ∈ d.handlers
  ordered : d.Ordered → d'.Ordered

namespace Estate.Extends

variable {d d' d'' : Estate β}

theorem trans (h : d.Extends d') (g : d'.Extends d'') : d.Extends d'' where
  nextHandler := Nat.le_trans h.nextHandler g.nextHandler
  old k hk hlt := h.old k (g.old k hk (Nat.lt_of_lt_of_le hlt h.nextHandler)) hlt
  ordered hd := g.ordered (h.ordered hd)

/-- Some handlers go. -/
theorem of_sublist (hn : d'.nextHandler = d.nextHandler) (hs : d'.handlers.Sublist d.handlers) :
    d.Extends d' where
  nextHandler := Nat.le_of_eq hn.symm
  old _ hk _ := hs.subset hk
  ordered hd := ⟨hd.ascending.sublist hs, fun k hk => hn ▸ hd.given k (hs.subset hk)⟩

theorem refl (d : Estate β) : d.Extends d :=
  of_sublist rfl (List.Sublist.refl _)

/-- A handler comes. -/
theorem of_append {h : Handler β} (hid : h.id.number = d.nextHandler)
    (hn : d'.nextHandler = d.nextHandler + 1) (hs : d'.handlers = d.handlers ++ [h]) :
    d.Extends d' where
  nextHandler := by omega
  old k hk hlt := by
    rw [hs, List.mem_append, List.mem_singleton] at hk
    rcases hk with hold | rfl
    · exact hold
    · omega
  ordered hd := by
    constructor
    · rw [hs, List.pairwise_append]
      refine ⟨hd.ascending, List.pairwise_singleton _ _, fun g hg k hk => ?_⟩
      obtain rfl := List.mem_singleton.mp hk
      have := hd.given g hg
      omega
    · intro k hk
      rw [hs, List.mem_append, List.mem_singleton] at hk
      rcases hk with hold | rfl
      · have := hd.given k hold
        omega
      · omega

end Estate.Extends

theorem Estate.extends_of_connect {x y : Instance β} {signal : String} {target : HandlerTarget β}
    {id : HandlerId} (hc : x.connect signal target = .ok (y, id)) :
    x.estate.Extends y.estate := by
  obtain ⟨h, -, -, rfl, hid, hy⟩ := Instance.estate_of_connect hc
  rw [hy]
  exact .of_append hid rfl rfl

theorem Estate.extends_of_connectEvent {x y : Instance β} {event : EventId} {resolve : String}
    {reject : Option String} {ids : List HandlerId}
    (hc : World.connectEvent x event resolve reject = .ok (y, ids)) :
    x.estate.Extends y.estate := by
  obtain ⟨z, first, hfirst, ⟨-, rfl, -⟩ | ⟨signal, second, -, hsecond, -⟩⟩ :=
    World.connects_of_connectEvent hc
  · exact extends_of_connect hfirst
  · exact (extends_of_connect hfirst).trans (extends_of_connect hsecond)

/-! ## Worlds over time -/

namespace World

/-- Instances that live on extend their estates; new ones are new. -/
structure Evolves (w v : World β) : Prop where
  nextInstance : w.nextInstance ≤ v.nextInstance
  estate : ∀ i d', v.estate? i = some d' →
    (∃ d, w.estate? i = some d ∧ d.Extends d') ∨
      w.nextInstance ≤ i.number ∧ i.number < v.nextInstance ∧ d'.Ordered

section
variable {u v w : World β}

theorem Evolves.trans (h : Evolves u v) (g : Evolves v w) : Evolves u w where
  nextInstance := Nat.le_trans h.nextInstance g.nextInstance
  estate i d'' hd'' := by
    have hle := h.nextInstance
    have hle' := g.nextInstance
    rcases g.estate i d'' hd'' with ⟨d', hd', hextends⟩ | ⟨hge, hlt, hordered⟩
    · rcases h.estate i d' hd' with ⟨d, hd, hextends'⟩ | ⟨hge, hlt, hordered⟩
      · exact .inl ⟨d, hd, hextends'.trans hextends⟩
      · exact .inr ⟨hge, by omega, hextends.ordered hordered⟩
    · exact .inr ⟨by omega, hlt, hordered⟩

/-- No instance is new, and those that live on extend their estates. -/
theorem Evolves.of_extends (hn : v.nextInstance = w.nextInstance)
    (h : ∀ i d', v.estate? i = some d' → ∃ d, w.estate? i = some d ∧ d.Extends d') :
    Evolves w v :=
  ⟨Nat.le_of_eq hn.symm, fun i d' hd' => .inl (h i d' hd')⟩

theorem Spares.evolves (h : Spares w v) : Evolves w v := by
  refine .of_extends h.nextInstance fun i d hd => ⟨d, ?_, .refl d⟩
  rw [← h.estate]
  exact hd

/-- A new instance comes under a number of its own, with an empty estate. -/
theorem estate?_addInstance (w : World β) (ofClass : Class β) (c : ContextId) (i : InstanceId) :
    (w.addInstance ofClass c).1.estate? i = (w.estate? i).or
      (if i = ⟨w.nextInstance⟩ then some ⟨ofClass, .empty, [], 0⟩ else none) := by
  have hfind : (w.addInstance ofClass c).1.instance? i = (w.instance? i).or
      (if i = ⟨w.nextInstance⟩ then some { ofClass, context := c } else none) :=
    Table.find?_add _ _ _ _
  unfold estate?
  rw [hfind, Option.map_or]
  split <;> rfl

theorem evolves_addInstance (w : World β) (ofClass : Class β) (c : ContextId) :
    Evolves w (w.addInstance ofClass c).1 where
  nextInstance := Nat.le_succ _
  estate i d hd := by
    rw [estate?_addInstance] at hd
    rcases Option.or_eq_some_iff.mp hd with hold | ⟨-, hnew⟩
    · exact .inl ⟨d, hold, .refl d⟩
    · split at hnew
      · next hi =>
          cases hnew
          rw [hi]
          exact .inr ⟨Nat.le_refl _, Nat.lt_succ_self _, .nil, fun h hh => (by cases hh)⟩
      · cases hnew

theorem evolves_modifyInstance (w : World β) (i : InstanceId) {f : Instance β → Instance β}
    {g : Estate β → Estate β} (hf : ∀ x, (f x).estate = g x.estate)
    (hg : ∀ d : Estate β, d.Extends (g d)) : Evolves w (w.modifyInstance i f) := by
  refine .of_extends rfl fun j d' hd' => ?_
  rw [estate?_modifyInstance w i j hf] at hd'
  split at hd'
  · obtain ⟨d, hd, rfl⟩ := Option.map_eq_some_iff.mp hd'
    exact ⟨d, hd, hg d⟩
  · exact ⟨d', hd', .refl d'⟩

theorem evolves_replaceInstance {i : InstanceId} {x y : Instance β} (hx : w.instance? i = some x)
    (h : x.estate.Extends y.estate) : Evolves w (w.modifyInstance i fun _ => y) := by
  refine .of_extends rfl fun j d' hd' => ?_
  rw [estate?_replaceInstance hx] at hd'
  split at hd'
  · next hj =>
      cases hd'
      rw [hj]
      exact ⟨x.estate, estate?_eq hx, h⟩
  · exact ⟨d', hd', .refl d'⟩

theorem evolves_dispose (w : World β) (i : InstanceId) : Evolves w (w.dispose i) := by
  refine dispose_induction w i (Spares.refl w).evolves fun x _ _ => ?_
  have hdetach := (spares_detachSources w x.context x.deferredSources).evolves
  have hdispose : Evolves (w.detachSources x.context x.deferredSources)
      ((w.detachSources x.context x.deferredSources).modifyInstance i Instance.dispose) :=
    evolves_modifyInstance (g := fun d => { d with handlers := [] }) _ i (fun x => rfl)
      fun d => .of_sublist rfl (List.nil_sublist _)
  exact hdetach.trans hdispose

theorem Settled.evolves {e : EventId} {ev : Event} {o : EventOutcome} (h : w.Settled e ev o v) :
    Evolves w v := by
  refine .of_extends h.nextInstance fun i d' hd' => ?_
  obtain ⟨d, hd, rfl | ⟨-, rfl⟩⟩ := h.estate_of_some hd'
  · exact ⟨d', hd, .refl d'⟩
  · exact ⟨d, hd, .of_sublist rfl List.filter_sublist⟩

theorem evolves_settle (w : World β) (e : EventId) (o : EventOutcome) :
    Evolves w (w.settle e o) := by
  rcases settled_or_same w e o with ⟨ev, hsettled⟩ | hsame
  · exact hsettled.evolves
  · rw [hsame]
    exact (Spares.refl w).evolves

theorem Sheds.evolves {events : List EventId} (h : Sheds events w v) : Evolves w v := by
  induction h with
  | refl => exact (Spares.refl w).evolves
  | abandons _ e ev he hnone hsettled ih => exact ih.trans hsettled.evolves
  | drops _ _ i hi ih =>
      refine ih.trans (.of_extends rfl fun j d hd => ?_)
      rw [estate?_dropInstance] at hd
      split at hd
      · cases hd
      · exact ⟨d, hd, .refl d⟩

end

end World

open World (Evolves)

theorem Deal.evolves {m m' : Machine σ β κ} (h : Deal m m') : Evolves m.world m'.world := by
  have hsame (hw : m'.world = m.world) : Evolves m.world m'.world := by
    rw [hw]
    exact (World.Spares.refl _).evolves
  cases h with
  | spares hspares hs hc => exact hspares.evolves
  | creates c hm hspares hs hc => exact (World.evolves_addInstance _ _ _).trans hspares.evolves
  | stores i x name value spec notify equality effect hx hwrite hv hs hc =>
      rw [hv]
      exact World.evolves_modifyInstance (g := fun d => { d with
        stored := d.stored.insert spec.name value }) _ i (fun x => rfl) fun d =>
          .of_sublist rfl (List.Sublist.refl _)
  | emits i signal detail args accumulator hv hs hc => exact hsame hv
  | connects i x y signal target id hx hconnect htarget hv hs hc =>
      rw [hv]
      exact World.evolves_replaceInstance hx (Estate.extends_of_connect hconnect)
  | awaits i x y resolve reject ids hx hconnect hv hs hc =>
      rw [hv]
      have hreplace := World.evolves_replaceInstance hx (Estate.extends_of_connectEvent hconnect)
      exact ⟨hreplace.nextInstance, hreplace.estate⟩
  | disconnects i id hv hs hc =>
      rw [hv]
      exact World.evolves_modifyInstance (g := fun d => { d with
        handlers := d.handlers.filter (·.id ≠ id) }) _ i (fun x => rfl) fun d =>
          .of_sublist rfl List.filter_sublist
  | disposes i hv hs hc =>
      rw [hv]
      exact World.evolves_dispose _ i
  | ends e hv hs hc => exact hsame hv
  | turns e e' es handler hs hs' howner hremaining hv => exact hsame hv
  | settles e e' stack reply handler event o hm hs hs' howner hremaining hconnected hout hv hc =>
      rw [hv]
      exact World.evolves_settle _ event o

theorem Machine.evolves_step (client : Client σ β κ) (m : Machine σ β κ) :
    Evolves m.world (m.step client).world :=
  (deal_advance client m).evolves.trans (sheds_step client m).evolves

/-! ## Order and identity -/

namespace World

/-- Every instance was counted, and its handlers are in order of connection. -/
def Ordered (w : World β) : Prop :=
  ∀ i d, w.estate? i = some d → i.number < w.nextInstance ∧ d.Ordered

/-- A handler was once connected to an instance: its identity stands for it. -/
def Knows (w : World β) (i : InstanceId) (h : Handler β) : Prop :=
  i.number < w.nextInstance ∧ ∀ d, w.estate? i = some d →
    h.id.number < d.nextHandler ∧ ∀ g ∈ d.handlers, g.id = h.id → g = h

/-- A handler is connected to an instance. -/
def Connected (w : World β) (i : InstanceId) (h : Handler β) : Prop :=
  ∃ x, w.instance? i = some x ∧ h ∈ x.handlers

variable {v w : World β} {i : InstanceId} {h : Handler β}

theorem Ordered.evolves (hw : w.Ordered) (he : Evolves w v) : v.Ordered := by
  intro i d' hd'
  rcases he.estate i d' hd' with ⟨d, hd, hextends⟩ | ⟨-, hlt, hordered⟩
  · obtain ⟨hlt, hordered⟩ := hw i d hd
    exact ⟨Nat.lt_of_lt_of_le hlt he.nextInstance, hextends.ordered hordered⟩
  · exact ⟨hlt, hordered⟩

/-- A connected handler is known. -/
theorem Ordered.knows (hw : w.Ordered) {d : Estate β} (hd : w.estate? i = some d)
    (hh : h ∈ d.handlers) : w.Knows i h := by
  obtain ⟨hlt, hordered⟩ := hw i d hd
  refine ⟨hlt, fun d' hd' => ?_⟩
  cases hd.symm.trans hd'
  exact ⟨hordered.given h hh, fun g hg hid => hordered.eq_of_id hg hh hid⟩

theorem Knows.evolves (hk : w.Knows i h) (he : Evolves w v) : v.Knows i h := by
  refine ⟨Nat.lt_of_lt_of_le hk.1 he.nextInstance, fun d' hd' => ?_⟩
  rcases he.estate i d' hd' with ⟨d, hd, hextends⟩ | ⟨hge, -, -⟩
  · obtain ⟨hlt, hsame⟩ := hk.2 d hd
    refine ⟨Nat.lt_of_lt_of_le hlt hextends.nextHandler, fun g hg hid => ?_⟩
    exact hsame g (hextends.old g hg (hid ▸ hlt)) hid
  · -- no instance comes under a number that was counted
    have := hk.1
    omega

/-- A known handler is connected exactly if its identity is. -/
theorem Knows.isConnected_iff (hk : w.Knows i h) :
    w.isConnected i h.id = true ↔ w.Connected i h := by
  unfold isConnected Connected
  cases hx : w.instance? i with
  | none => exact ⟨fun h => (by cases h), fun ⟨_, h, _⟩ => (by cases h)⟩
  | some x =>
      constructor
      · intro hconnected
        obtain ⟨g, hg, hid⟩ := List.any_eq_true.mp hconnected
        obtain rfl := (hk.2 x.estate (estate?_eq hx)).2 g hg (by simpa using hid)
        exact ⟨x, rfl, hg⟩
      · rintro ⟨_, hsome, hmem⟩
        cases hsome
        exact List.any_eq_true.mpr ⟨h, hmem, by simp⟩

end World

theorem Machine.Reachable.ordered {client : Client σ β κ} {m : Machine σ β κ}
    (h : Machine.Reachable client m) : m.world.Ordered := by
  induction h with
  | initial state callback => exact fun i d hd => (by cases hd)
  | step _ ih => exact ih.evolves (Machine.evolves_step client _)

/-! ## Handlers of emissions in progress -/

/-- The emissions in progress after a move were there before it, with at least the same handlers
left, or they have noted handlers that are connected now. -/
theorem Deal.emissions {m m' : Machine σ β κ} (h : Deal m m') {e' : Emission β}
    (he' : e' ∈ m'.emissions) :
    (∃ e ∈ m.emissions, e'.owner = e.owner ∧ ∀ g ∈ e'.remaining, g ∈ e.remaining) ∨
      ∃ i signal detail args accumulator,
        e' = m'.world.emissionOf i signal detail args accumulator := by
  have hsame (hs : m'.emissions = m.emissions) :
      ∃ e ∈ m.emissions, e'.owner = e.owner ∧ ∀ g ∈ e'.remaining, g ∈ e.remaining :=
    ⟨e', hs ▸ he', rfl, fun _ hg => hg⟩
  have hturn {e₁ e₂ : Emission β} {es : List (Emission β)} {g : Handler β}
      (hs : m.emissions = e₁ :: es) (hs' : m'.emissions = e₂ :: es) (howner : e₂.owner = e₁.owner)
      (hremaining : e₁.remaining = g :: e₂.remaining) :
      ∃ e ∈ m.emissions, e'.owner = e.owner ∧ ∀ g ∈ e'.remaining, g ∈ e.remaining := by
    rw [hs'] at he'
    rw [hs]
    rcases List.mem_cons.mp he' with rfl | hold
    · refine ⟨e₁, List.mem_cons_self, howner, fun f hf => ?_⟩
      rw [hremaining]
      exact List.mem_cons_of_mem _ hf
    · exact ⟨e', List.mem_cons_of_mem _ hold, rfl, fun _ hg => hg⟩
  cases h with
  | spares hw hs hc => exact .inl (hsame hs)
  | creates c hm hw hs hc => exact .inl (hsame hs)
  | connects i x y signal target id hx hconnect htarget hw hs hc => exact .inl (hsame hs)
  | awaits i x y resolve reject ids hx hconnect hw hs hc => exact .inl (hsame hs)
  | disconnects i id hw hs hc => exact .inl (hsame hs)
  | disposes i hw hs hc => exact .inl (hsame hs)
  | ends e hw hs hc =>
      refine .inl ⟨e', ?_, rfl, fun _ hg => hg⟩
      rw [hs]
      exact List.mem_cons_of_mem _ he'
  | turns e₁ e₂ es g hs hs' howner hremaining hw => exact .inl (hturn hs hs' howner hremaining)
  | settles e₁ e₂ stack reply g event o hm hs hs' howner hremaining hconnected hout hw hc =>
      have hbefore : m.emissions = e₁ :: stack.filterMap Layer.emission? := by
        rw [Machine.emissions, hs]
        rfl
      have hafter : m'.emissions = e₂ :: stack.filterMap Layer.emission? := by
        rw [Machine.emissions, hs']
        rfl
      exact .inl (hturn hbefore hafter howner hremaining)
  | emits i signal detail args accumulator hw hs hc =>
      rw [hs.emissions] at he'
      rcases List.mem_cons.mp he' with rfl | hold
      · exact .inr ⟨i, signal, detail, args, accumulator, by rw [hw]⟩
      · exact .inl ⟨e', hold, rfl, fun _ hg => hg⟩
  | stores i x name value spec notify equality effect hx hwrite hw hs hc =>
      rcases hs with hs | hs
      · exact .inl (hsame hs)
      · rw [hs.emissions] at he'
        rcases List.mem_cons.mp he' with rfl | hold
        · exact .inr ⟨i, notifySignal, some spec.canonicalName, _, _, rfl⟩
        · exact .inl ⟨e', hold, rfl, fun _ hg => hg⟩

/-- An emission that begins notes connected handlers. -/
theorem World.mem_emissionOf {w : World β} {i : InstanceId} {signal : String}
    {detail : Option String} {args : List Value} {accumulator : Accumulator} {h : Handler β}
    (hh : h ∈ (w.emissionOf i signal detail args accumulator).remaining) :
    ∃ x, w.instance? i = some x ∧ h ∈ x.handlersOf signal detail := by
  unfold emissionOf at hh
  dsimp only at hh
  split at hh
  · next x hx => exact ⟨x, hx, hh⟩
  · cases hh

/-- The handlers that an emission in progress has left are known. -/
theorem Machine.Reachable.knows {client : Client σ β κ} {m : Machine σ β κ}
    (h : Machine.Reachable client m) {e : Emission β} (he : e ∈ m.emissions) {g : Handler β}
    (hg : g ∈ e.remaining) : m.world.Knows e.owner g := by
  induction h generalizing e g with
  | initial state callback => cases he
  | @step m hreach ih =>
      have hdeal := deal_advance client m
      have hsheds := (Machine.sheds_step client m).evolves
      rw [Machine.emissions_step] at he
      rcases hdeal.emissions he with
        ⟨e₀, he₀, howner, hsub⟩ | ⟨i, signal, detail, args, accumulator, rfl⟩
      · rw [howner]
        exact ((ih he₀ (hsub g hg)).evolves hdeal.evolves).evolves hsheds
      · obtain ⟨x, hx, hmem⟩ := World.mem_emissionOf hg
        have hordered := hreach.ordered.evolves hdeal.evolves
        exact (hordered.knows (World.estate?_eq hx) (List.mem_filter.mp hmem).1).evolves hsheds

/-- The next handler of an emission on top is connected exactly if its identity is. -/
theorem Machine.Reachable.isConnected_iff {client : Client σ β κ} {m : Machine σ β κ}
    (h : Machine.Reachable client m) {e : Emission β} {stack : List (Layer β κ)}
    (hs : m.stack = .operation (.emission e) :: stack) {g : Handler β} {rest : List (Handler β)}
    (hremaining : e.remaining = g :: rest) :
    m.world.isConnected e.owner g.id = true ↔ m.world.Connected e.owner g := by
  have hmem : e ∈ m.emissions := by
    rw [emissions, hs]
    exact List.mem_cons_self
  exact (h.knows hmem (hremaining ▸ List.mem_cons_self)).isConnected_iff

end ObjectSystem
