import Mathlib
import ObjectSystem.Proofs.Fittings
import ObjectSystem.Proofs.Preparing

/-!
# How fittings change

Fittings change one instance at a time: whatever refits an instance leaves the fittings of all
others alone (`World.Refits`). Each change that there is has its counterpart on fittings, so what
happens to an instance is told by a function on its fittings. Of groups one is changed at a time as
well (`World.group_modifyGroup`).
-/

namespace ObjectSystem

variable {β : Type}

/-! ## Changes of fittings -/

namespace Fittings

variable (x : Fittings β)

/-- Writes a raw field. -/
def setField (name : String) (value : Value) : Fittings β :=
  { x with fields := x.fields.insert name value }

/-- Writes a raw field unless it has a value. -/
def seedField (name : String) (value : Value) : Fittings β :=
  if x.fields.contains name then x else x.setField name value

/-- Makes a group reachable under a qualifier. -/
def insertGroup (qualifier : String) (g : GroupId) : Fittings β :=
  { x with groups := x.groups.insert qualifier g }

/-- Takes a group as the own one, unless there is one. -/
def own (g : GroupId) : Fittings β :=
  match x.ownGroup with
  | some _ => x
  | none => { x with ownGroup := some g }.insertGroup x.ofClass.typeName g

/-- Makes room for an action: for a widget it is in its own group. -/
def attach (name : String) (a : ActionId) (g : GroupId) : Fittings β :=
  match x.ofClass.kind with
  | .object => x
  | .widget => x.own g
  | .window | .application => { x with actions := x.actions.insert name a }

/-- Binds key combinations to a qualified name. -/
def bindAccels (name : String) (accels : List String) : Fittings β :=
  { x with accels := x.accels.insert name accels }

/-- Exposes an action under a field. -/
def expose (field : String) (a : ActionId) : Fittings β :=
  { x with exposed := x.exposed.insert field a }

/-- Exposes an action if there is a field to do so. -/
def exposeAs (field? : Option String) (a : ActionId) : Fittings β :=
  match field? with
  | some field => x.expose field a
  | none => x

/-- Makes room for a declared action, and binds and exposes it as it says. -/
def create (kind : InstanceKind) (declared : ActionDeclaration β) (a : ActionId) (g : GroupId) :
    Fittings β :=
  let x := x.attach declared.name a g
  let x :=
    if kind = .application ∧ declared.options.accels ≠ [] then
      x.bindAccels ("app." ++ declared.name) declared.options.accels
    else x
  x.exposeAs declared.options.exposeAs a

/-- Nothing but the exposed actions changes. -/
theorem exposeAs_eq (field? : Option String) (a : ActionId) :
    ∃ exposed, x.exposeAs field? a = { x with exposed } := by
  cases field? with
  | none => exact ⟨x.exposed, rfl⟩
  | some field => exact ⟨_, rfl⟩

theorem own_eq (g : GroupId) : ∃ ownGroup groups, x.own g = { x with ownGroup, groups } := by
  unfold own
  split
  · exact ⟨x.ownGroup, x.groups, rfl⟩
  · exact ⟨_, _, rfl⟩

/-- Only places of actions change. -/
theorem attach_eq (name : String) (a : ActionId) (g : GroupId) :
    ∃ ownGroup groups actions, x.attach name a g = { x with ownGroup, groups, actions } := by
  unfold attach
  split
  · exact ⟨x.ownGroup, x.groups, x.actions, rfl⟩
  · obtain ⟨ownGroup, groups, hown⟩ := x.own_eq g
    exact ⟨ownGroup, groups, x.actions, hown⟩
  · exact ⟨x.ownGroup, x.groups, _, rfl⟩
  · exact ⟨x.ownGroup, x.groups, _, rfl⟩

theorem ofClass_own (g : GroupId) : (x.own g).ofClass = x.ofClass := by
  obtain ⟨_, _, h⟩ := x.own_eq g
  rw [h]

theorem fields_own (g : GroupId) : (x.own g).fields = x.fields := by
  obtain ⟨_, _, h⟩ := x.own_eq g
  rw [h]

theorem ofClass_attach (name : String) (a : ActionId) (g : GroupId) :
    (x.attach name a g).ofClass = x.ofClass := by
  obtain ⟨_, _, _, h⟩ := x.attach_eq name a g
  rw [h]

theorem fields_attach (name : String) (a : ActionId) (g : GroupId) :
    (x.attach name a g).fields = x.fields := by
  obtain ⟨_, _, _, h⟩ := x.attach_eq name a g
  rw [h]

/-- Besides, only accelerators and exposed actions do. -/
theorem create_eq (kind : InstanceKind) (declared : ActionDeclaration β) (a : ActionId)
    (g : GroupId) : ∃ accels exposed,
      x.create kind declared a g = { x.attach declared.name a g with accels, exposed } := by
  unfold create
  dsimp only
  obtain ⟨exposed, h⟩ := exposeAs_eq _ declared.options.exposeAs a
  rw [h]
  split
  · exact ⟨_, exposed, rfl⟩
  · exact ⟨(x.attach declared.name a g).accels, exposed, rfl⟩

theorem ofClass_create (kind : InstanceKind) (declared : ActionDeclaration β) (a : ActionId)
    (g : GroupId) : (x.create kind declared a g).ofClass = x.ofClass := by
  obtain ⟨_, _, h⟩ := x.create_eq kind declared a g
  rw [h]
  exact x.ofClass_attach declared.name a g

theorem fields_create (kind : InstanceKind) (declared : ActionDeclaration β) (a : ActionId)
    (g : GroupId) : (x.create kind declared a g).fields = x.fields := by
  obtain ⟨_, _, h⟩ := x.create_eq kind declared a g
  rw [h]
  exact x.fields_attach declared.name a g

end Fittings

theorem Instance.fittings_seedField (x : Instance β) (name : String) (value : Value) :
    (x.seedField name value).fittings = x.fittings.seedField name value := by
  unfold seedField Fittings.seedField
  show _ = if x.fields.contains name = true then _ else _
  split <;> rfl

namespace World

/-- The group that is made next. -/
def nextGroup (w : World β) : GroupId :=
  ⟨w.groups.entries.length⟩

/-- The action that is made next. -/
def nextAction (w : World β) : ActionId :=
  ⟨w.actions.entries.length⟩

/-! ## One instance at a time -/

/-- A change of the fittings of one instance, which leaves those of all others alone. -/
def Refits (i : InstanceId) (f : Fittings β → Fittings β) (w v : World β) : Prop :=
  ∀ j, v.fittings j = if j = i then (w.fittings j).map f else w.fittings j

section
variable {u v w : World β} {i j : InstanceId} {f g : Fittings β → Fittings β} {x : Fittings β}

namespace Refits

theorem of_fittings (h : v.fittings = w.fittings) : Refits i id w v := by
  intro j
  rw [h, Option.map_id, id, ite_self]

theorem trans (h : Refits i f u v) (h' : Refits i g v w) : Refits i (fun x => g (f x)) u w := by
  intro j
  rw [h' j, h j]
  split
  · rw [Option.map_map]
    rfl
  · rfl

/-- Only what it does to the instance as it is matters. -/
theorem congr (h : Refits i f w v) (hfg : ∀ x, w.fittings i = some x → f x = g x) :
    Refits i g w v := by
  intro j
  rw [h j]
  split
  · next hj =>
    subst hj
    cases hx : w.fittings j with
    | none => rfl
    | some x => exact congrArg some (hfg x hx)
  · rfl

theorem self (h : Refits i f w v) (hx : w.fittings i = some x) : v.fittings i = some (f x) := by
  rw [h i, if_pos rfl, hx]
  rfl

theorem other (h : Refits i f w v) (hj : j ≠ i) : v.fittings j = w.fittings j := by
  rw [h j, if_neg hj]

/-- What is fitted afterwards was fitted before. -/
theorem exists_before (h : Refits i f w v) {y : Fittings β} (hy : v.fittings j = some y) :
    (j = i ∧ ∃ x, w.fittings i = some x ∧ f x = y) ∨ (j ≠ i ∧ w.fittings j = some y) := by
  rw [h j] at hy
  split at hy
  · next hj =>
    subst hj
    exact .inl ⟨rfl, Option.map_eq_some_iff.mp hy⟩
  · next hj => exact .inr ⟨hj, hy⟩

end Refits

theorem refits_modifyInstance (w : World β) (i : InstanceId) {h : Instance β → Instance β}
    (hf : ∀ x, (h x).fittings = f x.fittings) : Refits i f w (w.modifyInstance i h) :=
  fun j => fittings_modifyInstance w i j hf

end

section
variable (w : World β) (i : InstanceId)

/-- An instance takes a group of its own when it needs one. -/
theorem refits_ownGroup {x : Instance β} (hx : w.instance? i = some x) :
    Refits i (·.own w.nextGroup) w (w.ownGroup i x).1 := by
  unfold ownGroup
  split
  · next g hown =>
    refine (Refits.of_fittings rfl).congr fun y hy => ?_
    obtain rfl := Option.some.inj ((fittings_eq hx).symm.trans hy)
    show x.fittings = x.fittings.own _
    unfold Fittings.own
    rw [show x.fittings.ownGroup = some g from hown]
  · next hown =>
    have hadd : Refits i id w w.addGroup.1 := .of_fittings rfl
    have htake := refits_modifyInstance w.addGroup.1 i
      (h := fun x => { x with ownGroup := some w.addGroup.2 })
      (f := fun y => { y with ownGroup := some w.nextGroup }) fun _ => rfl
    refine ((hadd.trans htake).trans (refits_modifyInstance _ i
      (f := (·.insertGroup x.typeName w.nextGroup)) fun _ => rfl)).congr fun y hy => ?_
    obtain rfl := Option.some.inj ((fittings_eq hx).symm.trans hy)
    show _ = x.fittings.own _
    unfold Fittings.own
    rw [show x.fittings.ownGroup = none from hown]
    rfl

theorem refits_attachAction (a : ActionId) {action : Action β}
    (ha : w.actions.find? a = some action) :
    Refits i (·.attach action.name a w.nextGroup) w (w.attachAction i a) := by
  unfold attachAction
  rw [ha]
  cases hx : w.instance? i with
  | none =>
    refine (Refits.of_fittings rfl).congr fun y hy => ?_
    rw [fittings, hx] at hy
    cases hy
  | some x =>
    dsimp only
    have hattach {f : Fittings β → Fittings β} {v : World β} (h : Refits i f w v)
        (hf : f x.fittings = x.fittings.attach action.name a w.nextGroup) :
        Refits i (·.attach action.name a w.nextGroup) w v := by
      refine h.congr fun y hy => ?_
      obtain rfl := Option.some.inj ((fittings_eq hx).symm.trans hy)
      exact hf
    have hkind : x.fittings.ofClass.kind = x.ofClass.kind := rfl
    split
    · next hobject =>
      refine hattach (.of_fittings rfl) ?_
      unfold Fittings.attach
      rw [hkind, hobject]
      rfl
    · next hwidget =>
      refine hattach ((w.refits_ownGroup i hx).trans (.of_fittings rfl)) ?_
      unfold Fittings.attach
      rw [hkind, hwidget]
      rfl
    · next hwindow =>
      refine hattach (refits_modifyInstance w i
        (f := fun y => { y with actions := y.actions.insert action.name a }) fun _ => rfl) ?_
      unfold Fittings.attach
      rw [hkind, hwindow]
    · next happlication =>
      refine hattach (refits_modifyInstance w i
        (f := fun y => { y with actions := y.actions.insert action.name a }) fun _ => rfl) ?_
      unfold Fittings.attach
      rw [hkind, happlication]

end

/-! ## Groups -/

theorem group_congr {w v : World β} (h : v.groups = w.groups) : v.group = w.group := by
  unfold group
  rw [h]

section
variable (w : World β) (g : GroupId)

theorem group_addGroup : w.addGroup.1.group g = w.group g := by
  unfold group
  show ((w.groups.add w.nextGroup .empty).find? g).getD .empty = _
  rw [Table.find?_add]
  cases w.groups.find? g with
  | some t => rfl
  | none =>
    rw [Option.none_or]
    split <;> rfl

theorem group_modifyGroup (other : GroupId) (f : ActionGroup → ActionGroup)
    (hg : (w.groups.find? g).isSome = true) :
    (w.modifyGroup g f).group other = if other = g then f (w.group other) else w.group other := by
  unfold group
  show ((w.groups.modify g f).find? other).getD .empty = _
  rw [Table.find?_modify]
  split
  · next hother =>
    obtain ⟨t, ht⟩ := Option.isSome_iff_exists.mp hg
    rw [hother, ht]
    rfl
  · rfl

end

end World

end ObjectSystem
