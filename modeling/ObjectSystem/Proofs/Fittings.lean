import ObjectSystem.Proofs.Deal

/-!
# Fittings of instances

What an instance is *fitted* with are its fields, the places that it keeps its actions in, and its
accelerators (`Instance.fittings`); actions and their groups belong to the world. A few commands
change fittings: those that construct an instance, write a field, or have to do with actions
(`Command.refits`). All other changes *keep* fittings (`World.KeepsFittings`).
-/

namespace ObjectSystem

variable {β : Type}

/-! ## Fittings -/

/-- What an instance is fitted with. -/
structure Fittings (β : Type) where
  ofClass : Class β
  fields : NameTable Value
  ownGroup : Option GroupId
  groups : NameTable GroupId
  actions : NameTable ActionId
  accels : NameTable (List String)
  exposed : NameTable ActionId

namespace Instance

/-- The fittings of an instance. -/
def fittings (x : Instance β) : Fittings β :=
  ⟨x.ofClass, x.fields, x.ownGroup, x.groups, x.actions, x.accels, x.exposed⟩

variable (x : Instance β)

theorem fittings_disconnectAll (ids : List HandlerId) (x : Instance β) :
    (ids.foldl disconnect x).fittings = x.fittings := by
  induction ids generalizing x with
  | nil => rfl
  | cons id ids ih => exact ih _

theorem fittings_connect {y : Instance β} {signal : String} {target : HandlerTarget β}
    {h : HandlerId} (hc : x.connect signal target = .ok (y, h)) : y.fittings = x.fittings := by
  unfold connect at hc
  dsimp only at hc
  split at hc
  · cases hc
  · cases hc
    rfl

theorem fittings_connectEvent {y : Instance β} {event : EventId} {resolve : String}
    {reject : Option String} {ids : List HandlerId}
    (hc : World.connectEvent x event resolve reject = .ok (y, ids)) : y.fittings = x.fittings := by
  obtain ⟨z, first, hfirst, ⟨-, rfl, -⟩ | ⟨signal, second, -, hsecond, -⟩⟩ :=
    World.connects_of_connectEvent hc
  · exact x.fittings_connect hfirst
  · exact (z.fittings_connect hsecond).trans (x.fittings_connect hfirst)

end Instance

namespace World

/-- The fittings of every instance that is there. -/
def fittings (w : World β) (i : InstanceId) : Option (Fittings β) :=
  (w.instance? i).map Instance.fittings

theorem fittings_eq {w : World β} {i : InstanceId} {x : Instance β} (hx : w.instance? i = some x) :
    w.fittings i = some x.fittings := by
  rw [fittings, hx]
  rfl

theorem fittings_modifyInstance (w : World β) (i j : InstanceId) {f : Instance β → Instance β}
    {g : Fittings β → Fittings β} (hf : ∀ x, (f x).fittings = g x.fittings) :
    (w.modifyInstance i f).fittings j = if j = i then (w.fittings j).map g else w.fittings j := by
  unfold fittings
  rw [instance?_modifyInstance]
  split
  · cases w.instance? j with
    | none => rfl
    | some x => exact congrArg some (hf x)
  · rfl

/-- A change that leaves the fittings of instances, all actions and all groups alone. -/
structure KeepsFittings (w v : World β) : Prop where
  fittings : v.fittings = w.fittings
  actions : v.actions = w.actions
  groups : v.groups = w.groups

namespace KeepsFittings

variable {u v w : World β}

theorem refl (w : World β) : KeepsFittings w w :=
  ⟨rfl, rfl, rfl⟩

theorem trans (h : KeepsFittings u v) (g : KeepsFittings v w) : KeepsFittings u w :=
  ⟨g.fittings.trans h.fittings, g.actions.trans h.actions, g.groups.trans h.groups⟩

/-- A change that touches neither instances nor actions. -/
theorem of_eq (hi : v.instances = w.instances) (ha : v.actions = w.actions)
    (hg : v.groups = w.groups) : KeepsFittings w v where
  fittings := by
    unfold World.fittings instance?
    rw [hi]
  actions := ha
  groups := hg

end KeepsFittings

section
variable (w : World β)

theorem keepsFittings_modifyInstance (i : InstanceId) {f : Instance β → Instance β}
    (hf : ∀ x, (f x).fittings = x.fittings) : KeepsFittings w (w.modifyInstance i f) where
  fittings := by
    funext j
    rw [fittings_modifyInstance w i j (g := id) hf, Option.map_id, id, ite_self]
  actions := rfl
  groups := rfl

theorem keepsFittings_replaceInstance {w : World β} {i : InstanceId} {x y : Instance β}
    (hx : w.instance? i = some x) (hy : y.fittings = x.fittings) :
    KeepsFittings w (w.modifyInstance i fun _ => y) where
  fittings := by
    funext j
    rw [fittings_modifyInstance w i j (g := fun _ => x.fittings) fun _ => hy]
    split
    · next hj => rw [hj, fittings_eq hx, Option.map_some]
    · rfl
  actions := rfl
  groups := rfl

end

end World

/-! ## Commands that have to do with fittings -/

/-- Whether a command has to do with fittings, with actions or with groups. -/
def Command.refits : Command β → Bool
  | .construct _ | .setField .. | .newAction .. | .enableAction .. | .setActionState ..
  | .connectAction .. | .attachAction .. | .setAccels .. | .newGroup | .ownGroup _
  | .insertGroup .. | .addToGroup .. | .removeFromGroup .. => true
  | _ => false

end ObjectSystem
