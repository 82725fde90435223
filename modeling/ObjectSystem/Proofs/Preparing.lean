import Mathlib
import ObjectSystem.Proofs.Ages
import ObjectSystem.Proofs.Holding

/-!
# How a new instance is prepared

A construction prepares its instance in one move, before any callback runs: it presets the fields,
binds the children, and lets every level of the class, the root first, seed its backing fields and
create its actions. `Construction.preparations` lists all this in order, and `World.prepare` does one
of it; what the move leaves behind is the whole list, done one after the other
(`World.construct_eq`). At the first child that is not declared the list is broken off
(`World.construct_of_undeclared`).
-/

namespace ObjectSystem

variable {σ β κ : Type}

open Machine (Reachable)

/-! ## Preparations -/

/-- One thing that a construction does to its instance before any callback runs. -/
inductive Preparation (β : Type) where
  | setsField (name : String) (value : Value)
  | bindsChild (name : String) (child : InstanceId)
  /-- A backing field gets the default of its property, unless it has a value. -/
  | seedsField (name : String) (default : Value)
  | createsAction (declared : ActionDeclaration β)

/-- The backing field of a computed property, and what it is seeded with. -/
def PropertyEntry.seed? (entry : PropertyEntry β) : Option (String × Value) :=
  match entry.behaviour with
  | .computed _ (some field) => some (field, entry.spec.defaultValue)
  | _ => none

/-- What one level of a class prepares: its backing fields, then its actions. -/
def ClassLevel.preparations (level : ClassLevel β) : List (Preparation β) :=
  (level.properties.values.filterMap PropertyEntry.seed?).map (fun seed => .seedsField seed.1 seed.2)
    ++ level.actions.map .createsAction

/-- What the levels of a class prepare, the root first. -/
def Class.preparations (c : Class β) : List (Preparation β) :=
  c.rootFirst.flatMap ClassLevel.preparations

namespace Construction

variable (con : Construction β)

/-- The fields that are preset, then some of the children. -/
def presets (children : List (String × InstanceId)) : List (Preparation β) :=
  con.fields.map (fun field => .setsField field.1 field.2)
    ++ children.map fun child => .bindsChild child.1 child.2

/-- All that is prepared before any callback runs. -/
def preparations : List (Preparation β) :=
  con.presets con.children ++ con.ofClass.preparations

end Construction

namespace World

variable (w : World β) (i : InstanceId)

/-- Does one of the preparations. -/
def prepare (kind : InstanceKind) : Preparation β → World β
  | .setsField name value => w.modifyInstance i (·.setField name value)
  | .bindsChild name child => w.modifyInstance i (·.setField (childField name) (.object (some child)))
  | .seedsField name default => w.modifyInstance i (·.seedField name default)
  | .createsAction declared => w.createAction i kind declared

/-- The world with the instance of a construction, so far prepared. -/
def prepared (con : Construction β) (done : List (Preparation β)) : World β :=
  done.foldl (fun v step => v.prepare ⟨w.nextInstance⟩ con.ofClass.kind step)
    (w.addInstance con.ofClass con.context).1

/-! ### Preparations in a row -/

theorem modifyInstance_id : w.modifyInstance i id = w := by
  have hsame : w.instances.modify i id = w.instances := by
    refine congrArg Table.mk (Eq.trans (List.map_congr_left fun entry _ => ?_) (List.map_id _))
    show (if entry.1 = i then entry else entry) = entry
    exact ite_self _
  unfold modifyInstance
  rw [hsame]

theorem modifyInstance_modifyInstance (f g : Instance β → Instance β) :
    (w.modifyInstance i f).modifyInstance i g = w.modifyInstance i fun x => g (f x) := by
  have hsame : (w.instances.modify i f).modify i g = w.instances.modify i fun x => g (f x) := by
    refine congrArg Table.mk (Eq.trans List.map_map (List.map_congr_left fun entry _ => ?_))
    by_cases hentry : entry.1 = i <;> simp [hentry]
  unfold modifyInstance at hsame ⊢
  rw [hsame]

/-- Several changes of one instance are one change. -/
theorem foldl_modifyInstance {α : Type} (f : Instance β → α → Instance β) (as : List α) :
    as.foldl (fun v a => v.modifyInstance i (f · a)) w =
      w.modifyInstance i fun x => as.foldl f x := by
  induction as generalizing w with
  | nil => exact (w.modifyInstance_id i).symm
  | cons a as ih => rw [List.foldl_cons, ih, modifyInstance_modifyInstance]; rfl

theorem presetFields_eq (fields : List (String × Value)) :
    w.presetFields i fields =
      fields.foldl (fun v field => v.modifyInstance i (·.setField field.1 field.2)) w :=
  (w.foldl_modifyInstance i (fun (x : Instance β) (field : String × Value) =>
    x.setField field.1 field.2) fields).symm

theorem bindChildren_eq (children : List (String × InstanceId)) :
    w.bindChildren i children = children.foldl (fun v child =>
      v.modifyInstance i (·.setField (childField child.1) (.object (some child.2)))) w := by
  rw [bindChildren, presetFields_eq, List.foldl_map]

/-- Only backing fields are seeded. -/
theorem foldl_seedBacking (entries : List (PropertyEntry β)) (x : Instance β) :
    entries.foldl seedBacking x =
      (entries.filterMap PropertyEntry.seed?).foldl (fun y seed => y.seedField seed.1 seed.2) x := by
  rw [List.foldl_filterMap]
  refine congrArg (List.foldl · x entries) (funext₂ fun y entry => ?_)
  obtain ⟨spec, behaviour⟩ := entry
  cases behaviour with
  | stored notify equality effect => rfl
  | computed getter field => cases field <;> rfl

theorem initializeLevel_eq (kind : InstanceKind) (level : ClassLevel β) :
    w.initializeLevel i kind level =
      level.preparations.foldl (fun v step => v.prepare i kind step) w := by
  have hseeds := w.foldl_modifyInstance i (fun (y : Instance β) seed => y.seedField seed.1 seed.2)
    (level.properties.values.filterMap PropertyEntry.seed?)
  unfold initializeLevel ClassLevel.preparations
  rw [List.foldl_append, List.foldl_map, List.foldl_map]
  simp only [prepare, hseeds, foldl_seedBacking]

theorem initializeLevels_eq (c : Class β) :
    w.initializeLevels i c =
      c.preparations.foldl (fun v step => v.prepare i c.kind step) w := by
  unfold initializeLevels Class.preparations
  rw [List.foldl_flatMap]
  refine congrArg (List.foldl · w _) (funext₂ fun v level => ?_)
  exact v.initializeLevel_eq i c.kind level

/-- Fields, then children. -/
theorem prepared_presets (con : Construction β) (children : List (String × InstanceId)) :
    w.prepared con (con.presets children) =
      (((w.addInstance con.ofClass con.context).1.presetFields ⟨w.nextInstance⟩
        con.fields).bindChildren ⟨w.nextInstance⟩ children) := by
  rw [bindChildren_eq, presetFields_eq, prepared, Construction.presets, List.foldl_append,
    List.foldl_map, List.foldl_map]
  rfl

theorem prepared_append (con : Construction β) (done more : List (Preparation β)) :
    w.prepared con (done ++ more) =
      more.foldl (fun v step => v.prepare ⟨w.nextInstance⟩ con.ofClass.kind step)
        (w.prepared con done) :=
  List.foldl_append

/-! ## The first move of a construction -/

section
variable {con : Construction β}

/-- An abstract class is not constructed. -/
theorem construct_of_abstract (hclass : con.ofClass.own.flags.isAbstract = true) :
    w.construct con = .reply w (.failed (.construct (.isAbstract con.ofClass.typeName))) :=
  if_pos hclass

/-- **All is prepared, in order**, and then the construct properties are to be written. -/
theorem construct_eq (hclass : con.ofClass.own.flags.isAbstract = false)
    (hchildren : ∀ child ∈ con.children, con.ofClass.declaresChild child.1 = true) :
    w.construct con = .proceed (w.prepared con con.preparations)
      [.constructing ⟨w.nextInstance⟩ con.properties] := by
  have hspan : con.children.span (fun child => con.ofClass.declaresChild child.1) =
      (con.children, []) := by
    rw [List.span_eq_takeWhile_dropWhile, List.takeWhile_eq_self_iff.mpr hchildren,
      List.dropWhile_eq_nil_iff.mpr hchildren]
  rw [Construction.preparations, prepared_append, prepared_presets, ← initializeLevels_eq]
  unfold construct
  rw [hclass, if_neg Bool.false_ne_true]
  dsimp only
  rw [hspan]
  rfl

/-- **The first child that is not declared breaks it off**: the fields are preset and the children
before it are bound. -/
theorem construct_of_undeclared (hclass : con.ofClass.own.flags.isAbstract = false)
    {known others : List (String × InstanceId)} {name : String} {child : InstanceId}
    (hsplit : con.children = known ++ (name, child) :: others)
    (hknown : ∀ child ∈ known, con.ofClass.declaresChild child.1 = true)
    (hname : con.ofClass.declaresChild name = false) :
    w.construct con =
      { world := w.prepared con (con.presets known)
        control := .deliver (.failed (.construct (.unknownChild con.ofClass.typeName name)))
        frames := [.letGo
          (.object ⟨w.nextInstance⟩ :: Handle.ofValues (con.properties.map (·.2)))] } := by
  have hspan : con.children.span (fun child => con.ofClass.declaresChild child.1) =
      (known, (name, child) :: others) := by
    rw [List.span_eq_takeWhile_dropWhile, hsplit, List.takeWhile_append_of_pos hknown,
      List.dropWhile_append_of_pos hknown, List.takeWhile_cons_of_neg (by simp [hname]),
      List.dropWhile_cons_of_neg (by simp [hname]), List.append_nil]
  rw [prepared_presets]
  unfold construct
  rw [hclass, if_neg Bool.false_ne_true]
  dsimp only
  rw [hspan]
  rfl

end

/-! ## The instance that is prepared -/

/-- An instance of a class lives in a context. -/
def Houses (c : Class β) (context : ContextId) : Prop :=
  ∃ x, w.instance? i = some x ∧ x.ofClass = c ∧ x.context = context

section
variable {w i} {v : World β} {c : Class β} {context : ContextId}

/-- An instance that is there stays of its class and in its context. -/
theorem Houses.of_ages (h : w.Houses i c context) (hages : Ages w v)
    (hgiven : i.number < w.nextInstance) (halive : v.values? i ≠ none) :
    v.Houses i c context := by
  obtain ⟨x, hx, hclass, hcontext⟩ := h
  obtain ⟨y, hy⟩ := exists_instance halive
  rcases hages.ages i _ (duties?_eq hy) with ⟨d, hd, haged⟩ | hnew
  · obtain rfl := Option.some.inj ((duties?_eq hx).symm.trans hd)
    exact ⟨y, hy, haged.ofClass.trans hclass, haged.context.trans hcontext⟩
  · exact absurd hnew (Nat.not_le_of_lt hgiven)

theorem calm_prepare (w : World β) (i : InstanceId) (kind : InstanceKind) (step : Preparation β) :
    Calm w (w.prepare i kind step) := by
  cases step with
  | setsField name value => exact calm_modifyInstance w i fun x => duties_setField x name value
  | bindsChild name child => exact calm_modifyInstance w i fun x => duties_setField x _ _
  | seedsField name default =>
    refine calm_modifyInstance w i fun x => ?_
    unfold Instance.seedField
    split <;> rfl
  | createsAction declared => exact calm_createAction w i kind declared

theorem spares_prepare (w : World β) (i : InstanceId) (kind : InstanceKind) (step : Preparation β) :
    Spares w (w.prepare i kind step) := by
  cases step with
  | setsField name value => exact spares_modifyInstance w i fun _ => rfl
  | bindsChild name child => exact spares_modifyInstance w i fun _ => rfl
  | seedsField name default =>
    refine spares_modifyInstance w i fun x => ?_
    unfold Instance.seedField
    split <;> rfl
  | createsAction declared => exact spares_createAction w i kind declared

theorem calm_prepared (w : World β) (con : Construction β) (done : List (Preparation β)) :
    Calm (w.addInstance con.ofClass con.context).1 (w.prepared con done) :=
  Calm.foldl (fun v step => calm_prepare v _ _ step) done _

/-- However far it is prepared, a new instance is of its class and in its context. -/
theorem houses_prepared (hnew : w.values? ⟨w.nextInstance⟩ = none) (con : Construction β)
    (done : List (Preparation β)) :
    (w.prepared con done).Houses ⟨w.nextInstance⟩ con.ofClass con.context := by
  have hadded : (w.addInstance con.ofClass con.context).1.Houses ⟨w.nextInstance⟩ con.ofClass
      con.context := by
    refine ⟨{ ofClass := con.ofClass, context := con.context }, ?_, rfl, rfl⟩
    have hnone : w.instance? ⟨w.nextInstance⟩ = none := Option.map_eq_none_iff.mp hnew
    show (w.instances.add _ _).find? _ = _
    rw [Table.find?_add, if_pos rfl, show w.instances.find? _ = none from hnone, Option.none_or]
  have hspares : Spares (w.addInstance con.ofClass con.context).1 (w.prepared con done) :=
    Spares.foldl (fun v step => spares_prepare v _ _ step) done _
  refine hadded.of_ages (w.calm_prepared con done).toSteady.ages (Nat.lt_succ_self _) ?_
  rw [hspares.values, values?_addInstance, hnew, if_pos rfl]
  exact Option.some_ne_none _

end

end World

namespace Machine

variable {client : Client σ β κ} {m : Machine σ β κ} {i : InstanceId} {c : Class β}
  {context : ContextId}

/-- An instance that is held lives on. -/
theorem houses_step (hreach : Reachable client m) (h : m.world.Houses i c context)
    (hheld : .object i ∈ (m.step client).rootHandles client) :
    (m.step client).world.Houses i c context := by
  obtain ⟨x, hx, hfits⟩ := h
  refine World.Houses.of_ages ⟨x, hx, hfits⟩ (turn_step client m).ages ?_ (alive_step ?_ hheld)
  · exact hreach.tracked.created i x.duties (World.duties?_eq hx)
  · rw [World.values?_eq hx]
    exact Option.some_ne_none _

/-- An instance that is to be made is not there yet. -/
theorem Reachable.values_next (hreach : Reachable client m) :
    m.world.values? ⟨m.world.nextInstance⟩ = none := by
  refine Option.map_eq_none_iff.mpr (Option.eq_none_iff_forall_ne_some.mpr fun x hx => ?_)
  exact Nat.lt_irrefl _ (hreach.tracked.created _ x.duties (World.duties?_eq hx))

/-- After its first move, a construction whose children are all declared is about to write its
properties; its instance is there. -/
theorem follows_construct (hreach : Reachable client m) {con : Construction β}
    (hm : m.control = .perform (.construct con))
    (hclass : con.ofClass.own.flags.isAbstract = false)
    (hchildren : ∀ child ∈ con.children, con.ofClass.declaresChild child.1 = true) :
    m.advance client = m.follow client m.stack (.proceed (m.world.prepared con con.preparations)
        [.constructing ⟨m.world.nextInstance⟩ con.properties]) ∧
      (m.step client).world.Houses ⟨m.world.nextInstance⟩ con.ofClass con.context := by
  have hadvance : m.advance client = m.follow client m.stack
      (.proceed (m.world.prepared con con.preparations)
        [.constructing ⟨m.world.nextInstance⟩ con.properties]) := by
    rw [advance_perform client hm, ← World.construct_eq m.world hclass hchildren]
    rfl
  have hf := follows_of_advance client hadvance
  have hhouses := World.houses_prepared hreach.values_next con con.preparations
  have hheld : .object ⟨m.world.nextInstance⟩ ∈ (m.advance client).rootHandles client := by
    have htop : .operation (.constructing ⟨m.world.nextInstance⟩ con.properties) ∈
        (m.advance client).stack := by
      rw [hadvance]
      exact List.mem_cons_self
    exact held_of_mem_stack htop (List.mem_append_right _ List.mem_cons_self)
  refine ⟨hadvance, hhouses.of_ages hf.world.toSteady.ages ?_ ?_⟩
  · rw [(m.world.calm_prepared con con.preparations).nextInstance]
    exact Nat.lt_succ_self _
  · have hkept : (m.step client).world.values? _ = (m.advance client).world.values? _ :=
      values_reclaim m hheld
    obtain ⟨x, hx, -⟩ := hhouses
    rw [hkept, hadvance]
    show (m.world.prepared con con.preparations).values? _ ≠ none
    rw [World.values?_eq hx]
    exact Option.some_ne_none _

end Machine

end ObjectSystem
