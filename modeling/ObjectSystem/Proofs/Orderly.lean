import Mathlib
import ObjectSystem.Proofs.Refitting
import ObjectSystem.Proofs.Refusals
import ObjectSystem.Proofs.Spellings

/-!
# The order of actions

What actions are reached through is *in order* in every reachable state (`World.Orderly`): all
tables are sorted, and no two instances have the same group as their own. In such a state actions
and groups that are made are new, so what a preparation or a command does to an instance is told by
a function on its fittings (`Preparation.refit`, `Command.refit`). A step does to an instance that
lives on what the command that is performed says, and nothing else
(`Machine.Reachable.fittings_step`).
-/

namespace ObjectSystem

variable {σ β κ : Type}

/-! ## Tables -/

namespace Table

variable {ι α : Type} [DecidableEq ι]

theorem isSome_add (t : Table ι α) (key other : ι) (value : α) :
    ((t.add key value).find? other).isSome = true ↔
      (t.find? other).isSome = true ∨ other = key := by
  rw [find?_add, Option.isSome_or, Bool.or_eq_true]
  split
  · next h => exact iff_of_true (.inr rfl) (.inr h)
  · next h => simp [h]

theorem isSome_modify (t : Table ι α) (key other : ι) (f : α → α) :
    ((t.modify key f).find? other).isSome = (t.find? other).isSome := by
  rw [find?_modify]
  split
  · exact Option.isSome_map
  · rfl

end Table

theorem NameTable.Sorted.erase {α : Type} {t : NameTable α} (h : t.Sorted) (name : String) :
    (t.erase name).Sorted :=
  List.Pairwise.filter _ h

namespace World

/-! ## What actions are reached through -/

/-- Everything that actions are reached through is in order. -/
structure Orderly (w : World β) : Prop where
  groupIds : ∀ g, (w.groups.find? g).isSome = true ↔ g.number < w.groups.entries.length
  actionIds : ∀ a, (w.actions.find? a).isSome = true ↔ a.number < w.actions.entries.length
  /-- The actions of every group are sorted. -/
  sorted : ∀ g, (w.group g).Sorted
  /-- The tables of every instance are sorted. -/
  tables : ∀ i x, w.fittings i = some x → x.groups.Sorted ∧ x.actions.Sorted
  /-- What an instance has as its own group is a group. -/
  owned : ∀ i x g, w.fittings i = some x → x.ownGroup = some g →
    g.number < w.groups.entries.length
  /-- No two instances have the same group as their own. -/
  apart : ∀ i j x y g, w.fittings i = some x → w.fittings j = some y →
    x.ownGroup = some g → y.ownGroup = some g → i = j

namespace Orderly

variable {w v : World β} {i : InstanceId} {f : Fittings β → Fittings β}

/-- A change of one instance that leaves its own group alone and its tables sorted. -/
theorem of_refits (h : w.Orderly) (hr : Refits i f w v)
    (hown : ∀ x, w.fittings i = some x → (f x).ownGroup = x.ownGroup)
    (htables : ∀ x, w.fittings i = some x → x.groups.Sorted ∧ x.actions.Sorted →
      (f x).groups.Sorted ∧ (f x).actions.Sorted)
    (hgroups : v.groups = w.groups) (hactions : v.actions = w.actions) : v.Orderly := by
  -- what an instance has as its own group it had before
  have hbefore {j : InstanceId} {y : Fittings β} (hy : v.fittings j = some y) :
      ∃ x, w.fittings j = some x ∧ y.ownGroup = x.ownGroup := by
    rcases hr.exists_before hy with ⟨rfl, x, hx, rfl⟩ | ⟨-, hy⟩
    · exact ⟨x, hx, hown x hx⟩
    · exact ⟨y, hy, rfl⟩
  refine ⟨?_, ?_, ?_, fun j y hy => ?_, fun j y g hy hg => ?_,
    fun j k y z g hy hz hgy hgz => ?_⟩
  · rw [hgroups]
    exact h.groupIds
  · rw [hactions]
    exact h.actionIds
  · rw [group_congr hgroups]
    exact h.sorted
  · rcases hr.exists_before hy with ⟨rfl, x, hx, rfl⟩ | ⟨-, hy⟩
    · exact htables x hx (h.tables j x hx)
    · exact h.tables j y hy
  · obtain ⟨x, hx, hsame⟩ := hbefore hy
    rw [hgroups]
    exact h.owned j x g hx (hsame.symm.trans hg)
  · obtain ⟨x, hx, hsame⟩ := hbefore hy
    obtain ⟨x', hx', hsame'⟩ := hbefore hz
    exact h.apart j k x x' g hx hx' (hsame.symm.trans hgy) (hsame'.symm.trans hgz)

/-- Nothing that has to do with actions changes. -/
theorem of_keeps (h : w.Orderly) (hk : KeepsFittings w v) : v.Orderly :=
  h.of_refits (i := ⟨0⟩) (.of_fittings hk.fittings) (fun _ _ => rfl) (fun _ _ ht => ht) hk.groups
    hk.actions

/-- Instances are taken away. -/
theorem of_fades (h : w.Orderly)
    (hfittings : ∀ i x, v.fittings i = some x → w.fittings i = some x)
    (hgroups : v.groups = w.groups) (hactions : v.actions = w.actions) : v.Orderly where
  groupIds := hgroups ▸ h.groupIds
  actionIds := hactions ▸ h.actionIds
  sorted := group_congr hgroups ▸ h.sorted
  tables i x hx := h.tables i x (hfittings i x hx)
  owned i x g hx hg := hgroups ▸ h.owned i x g (hfittings i x hx) hg
  apart i j x y g hx hy := h.apart i j x y g (hfittings i x hx) (hfittings j y hy)

/-- The groups change, and there are no fewer of them. -/
theorem of_groups (h : w.Orderly) (hfittings : v.fittings = w.fittings)
    (hactions : v.actions = w.actions)
    (hids : ∀ g, (v.groups.find? g).isSome = true ↔ g.number < v.groups.entries.length)
    (hmore : w.groups.entries.length ≤ v.groups.entries.length)
    (hsorted : ∀ g, (v.group g).Sorted) : v.Orderly where
  groupIds := hids
  actionIds := hactions ▸ h.actionIds
  sorted := hsorted
  tables := hfittings ▸ h.tables
  owned i x g hx hg := Nat.lt_of_lt_of_le (h.owned i x g (hfittings ▸ hx) hg) hmore
  apart := hfittings ▸ h.apart

theorem addGroup (h : w.Orderly) : w.addGroup.1.Orderly := by
  have hlength : w.addGroup.1.groups.entries.length = w.groups.entries.length + 1 :=
    List.length_append
  refine h.of_groups rfl rfl (fun g => ?_) (by omega) fun g => ?_
  · refine (w.groups.isSome_add w.nextGroup g .empty).trans ?_
    rw [h.groupIds, hlength, Nat.lt_succ_iff_lt_or_eq]
    exact or_congr_right ⟨congrArg GroupId.number, congrArg GroupId.mk⟩
  · rw [group_addGroup]
    exact h.sorted g

theorem modifyGroup (h : w.Orderly) (g : GroupId) {f : ActionGroup → ActionGroup}
    (hf : ∀ t : ActionGroup, t.Sorted → (f t).Sorted) : (w.modifyGroup g f).Orderly := by
  have hlength : (w.modifyGroup g f).groups.entries.length = w.groups.entries.length :=
    List.length_map _
  have hfind (other : GroupId) : ((w.modifyGroup g f).groups.find? other).isSome =
      (w.groups.find? other).isSome := w.groups.isSome_modify g other f
  refine h.of_groups rfl rfl (fun other => ?_) (Nat.le_of_eq hlength.symm) fun other => ?_
  · rw [hfind, hlength, h.groupIds]
  · by_cases hg : (w.groups.find? g).isSome = true
    · rw [w.group_modifyGroup g other f hg]
      split
      · exact hf _ (h.sorted other)
      · exact h.sorted other
    · -- a group that is not there is not changed
      unfold group
      show (((w.groups.modify g f).find? other).getD .empty).Sorted
      rw [Table.find?_modify]
      split
      · next hother =>
        rw [hother, Option.not_isSome_iff_eq_none.mp hg]
        exact NameTable.sorted_empty
      · exact h.sorted other

/-- The actions change. -/
theorem of_actions (h : w.Orderly) (hfittings : v.fittings = w.fittings)
    (hgroups : v.groups = w.groups)
    (hids : ∀ a, (v.actions.find? a).isSome = true ↔ a.number < v.actions.entries.length) :
    v.Orderly where
  groupIds := hgroups ▸ h.groupIds
  actionIds := hids
  sorted := group_congr hgroups ▸ h.sorted
  tables := hfittings ▸ h.tables
  owned := by
    rw [hfittings, hgroups]
    exact h.owned
  apart := hfittings ▸ h.apart

theorem addAction (h : w.Orderly) (action : Action β) : (w.addAction action).1.Orderly := by
  refine h.of_actions rfl rfl fun a => ?_
  have hlength : (w.addAction action).1.actions.entries.length = w.actions.entries.length + 1 :=
    List.length_append
  refine (w.actions.isSome_add w.nextAction a action).trans ?_
  rw [h.actionIds, hlength, Nat.lt_succ_iff_lt_or_eq]
  exact or_congr_right ⟨congrArg ActionId.number, congrArg ActionId.mk⟩

theorem modifyAction (h : w.Orderly) (a : ActionId) (f : Action β → Action β) :
    (w.modifyAction a f).Orderly := by
  refine h.of_actions rfl rfl fun other => ?_
  have hlength : (w.modifyAction a f).actions.entries.length = w.actions.entries.length :=
    List.length_map _
  have hfind : ((w.modifyAction a f).actions.find? other).isSome =
      (w.actions.find? other).isSome := w.actions.isSome_modify a other f
  rw [hfind, hlength, h.actionIds]

/-- The next group is not there yet, and the next action neither. -/
theorem find?_nextGroup (h : w.Orderly) : w.groups.find? w.nextGroup = none := by
  rw [← Option.not_isSome_iff_eq_none, h.groupIds]
  exact Nat.lt_irrefl _

theorem find?_nextAction (h : w.Orderly) : w.actions.find? w.nextAction = none := by
  rw [← Option.not_isSome_iff_eq_none, h.actionIds]
  exact Nat.lt_irrefl _

/-- An instance takes a new group as its own. -/
theorem ownGroup (h : w.Orderly) {x : Instance β} (hx : w.instance? i = some x) :
    (w.ownGroup i x).1.Orderly := by
  have hrefits := w.refits_ownGroup i hx
  cases hown : x.ownGroup with
  | some g =>
    unfold World.ownGroup
    rw [hown]
    exact h
  | none =>
    have hadd := h.addGroup
    have hgroups : (w.ownGroup i x).1.groups = w.addGroup.1.groups := by
      unfold World.ownGroup
      rw [hown]
      rfl
    have hactions : (w.ownGroup i x).1.actions = w.actions := by
      unfold World.ownGroup
      rw [hown]
      rfl
    have htaken : x.fittings.own w.nextGroup =
        { x.fittings with ownGroup := some w.nextGroup }.insertGroup x.typeName w.nextGroup := by
      unfold Fittings.own
      rw [show x.fittings.ownGroup = none from hown]
      rfl
    generalize (w.ownGroup i x).1 = v at hrefits hgroups hactions
    -- the instance has the new group, all others have the one that they had
    have hbefore {j : InstanceId} {y : Fittings β} {g : GroupId} (hy : v.fittings j = some y)
        (hg : y.ownGroup = some g) :
        j = i ∧ g = w.nextGroup ∨ w.fittings j = some y ∧ g ≠ w.nextGroup := by
      rcases hrefits.exists_before hy with ⟨rfl, x', hx', rfl⟩ | ⟨-, hy⟩
      · obtain rfl := Option.some.inj ((fittings_eq hx).symm.trans hx')
        rw [htaken] at hg
        exact .inl ⟨rfl, (Option.some.inj hg).symm⟩
      · refine .inr ⟨hy, ?_⟩
        rintro rfl
        exact Nat.lt_irrefl _ (h.owned j y _ hy hg)
    have hgroup := group_congr hgroups
    refine ⟨hgroups ▸ hadd.groupIds, hactions ▸ h.actionIds, hgroup ▸ hadd.sorted,
      fun j y hy => ?_, fun j y g hy hg => ?_, fun j k y z g hy hz hgy hgz => ?_⟩
    · rcases hrefits.exists_before hy with ⟨rfl, x', hx', rfl⟩ | ⟨-, hy⟩
      · obtain rfl := Option.some.inj ((fittings_eq hx).symm.trans hx')
        obtain ⟨hsorted, hactions⟩ := h.tables j _ hx'
        rw [htaken]
        exact ⟨hsorted.insert _ _, hactions⟩
      · exact h.tables j y hy
    · rw [hgroups]
      refine (hadd.groupIds g).mp ((w.groups.isSome_add w.nextGroup g .empty).mpr ?_)
      rcases hbefore hy hg with ⟨-, hnew⟩ | ⟨hy, -⟩
      · exact .inr hnew
      · exact .inl ((h.groupIds g).mpr (h.owned j y g hy hg))
    · rcases hbefore hy hgy with ⟨rfl, hnew⟩ | ⟨hy, hold⟩ <;>
        rcases hbefore hz hgz with ⟨rfl, hnew'⟩ | ⟨hz, hold'⟩
      · rfl
      · exact absurd hnew hold'
      · exact absurd hnew' hold
      · exact h.apart j k y z g hy hz hgy hgz

theorem attachAction (h : w.Orderly) (i : InstanceId) (a : ActionId) :
    (w.attachAction i a).Orderly := by
  unfold World.attachAction
  split
  · next x action hx ha =>
    have hdirect : (w.modifyInstance i fun x =>
        { x with actions := x.actions.insert action.name a }).Orderly :=
      h.of_refits (refits_modifyInstance w i
          (f := fun y => { y with actions := y.actions.insert action.name a }) fun _ => rfl)
        (fun _ _ => rfl) (fun _ _ ht => ⟨ht.1, ht.2.insert _ _⟩) rfl rfl
    split
    · exact h
    · exact (h.ownGroup hx).modifyGroup _ fun t ht => ht.insert _ _
    · exact hdirect
    · exact hdirect
  · exact h

end Orderly

/-! ## Actions that are declared -/

section
variable {w : World β}

/-- A declared action is created as its declaration says. -/
theorem refits_createAction (h : w.Orderly) (i : InstanceId) (kind : InstanceKind)
    (declared : ActionDeclaration β) :
    Refits i (·.create kind declared w.nextAction w.nextGroup) w
      (w.createAction i kind declared) := by
  unfold createAction
  extract_lets made action
  have hadd : Refits i id w (w.addAction action).1 := .of_fittings rfl
  have hfind : (w.addAction action).1.actions.find? w.nextAction = some action := by
    show (w.actions.add w.nextAction action).find? w.nextAction = _
    rw [Table.find?_add, h.find?_nextAction, if_pos rfl]
    rfl
  have hattached := hadd.trans ((w.addAction action).1.refits_attachAction i w.nextAction hfind)
  have haccels (v : World β) :
      Refits i
        (fun y => if kind = .application ∧ declared.options.accels ≠ [] then
          y.bindAccels ("app." ++ declared.name) declared.options.accels else y)
        v (if kind = .application ∧ declared.options.accels ≠ [] then
          v.setAccels i ("app." ++ declared.name) declared.options.accels else v) := by
    by_cases hbinds : kind = .application ∧ declared.options.accels ≠ []
    · simp only [if_pos hbinds]
      exact refits_modifyInstance v i fun _ => rfl
    · simp only [if_neg hbinds]
      exact .of_fittings rfl
  have hbound := hattached.trans (haccels _)
  unfold Fittings.create
  cases declared.options.exposeAs with
  | some field =>
    exact hbound.trans
      (refits_modifyInstance _ i (f := (·.expose field w.nextAction)) fun _ => rfl)
  | none => exact hbound

theorem Orderly.createAction (h : w.Orderly) (i : InstanceId) (kind : InstanceKind)
    (declared : ActionDeclaration β) : (w.createAction i kind declared).Orderly := by
  unfold World.createAction
  extract_lets made action
  have hattached := (h.addAction action).attachAction i w.nextAction
  have hplain {v : World β} (hv : v.Orderly) {f : Instance β → Instance β}
      {g : Fittings β → Fittings β} (hf : ∀ x, (f x).fittings = g x.fittings)
      (hown : ∀ x, (g x).ownGroup = x.ownGroup) (hgroups : ∀ x, (g x).groups = x.groups)
      (hactions : ∀ x, (g x).actions = x.actions) : (v.modifyInstance i f).Orderly :=
    hv.of_refits (refits_modifyInstance v i hf) (fun x _ => hown x)
      (fun x _ ht => by rw [hgroups, hactions]; exact ht) rfl rfl
  have haccels {v : World β} (hv : v.Orderly) :
      (v.setAccels i ("app." ++ declared.name) declared.options.accels).Orderly :=
    hplain hv (g := (·.bindAccels ("app." ++ declared.name) declared.options.accels))
      (fun _ => rfl) (fun _ => rfl) (fun _ => rfl) fun _ => rfl
  have hexpose {v : World β} (hv : v.Orderly) (field : String) :
      (v.modifyInstance i fun x =>
        { x with exposed := x.exposed.insert field w.nextAction }).Orderly :=
    hplain hv (g := (·.expose field w.nextAction)) (fun _ => rfl) (fun _ => rfl) (fun _ => rfl)
      fun _ => rfl
  dsimp only
  split <;> split
  · exact hexpose (haccels hattached) _
  · exact hexpose hattached _
  · exact haccels hattached
  · exact hattached

end

/-! ## Preparations -/

end World

/-- What a preparation does to the fittings of its instance. -/
def Preparation.refit (kind : InstanceKind) (a : ActionId) (g : GroupId) :
    Preparation β → Fittings β → Fittings β
  | .setsField name value, x => x.setField name value
  | .bindsChild name child, x => x.setField (childField name) (.object (some child))
  | .seedsField name default, x => x.seedField name default
  | .createsAction declared, x => x.create kind declared a g

/-- The fittings of a new instance. -/
def Fittings.bare (ofClass : Class β) : Fittings β :=
  ⟨ofClass, .empty, none, .empty, .empty, .empty, .empty⟩

namespace World

section
variable {w : World β}

theorem refits_prepare (h : w.Orderly) (i : InstanceId) (kind : InstanceKind)
    (step : Preparation β) :
    Refits i (step.refit kind w.nextAction w.nextGroup) w (w.prepare i kind step) := by
  cases step with
  | setsField name value => exact refits_modifyInstance w i fun _ => rfl
  | bindsChild name child => exact refits_modifyInstance w i fun _ => rfl
  | seedsField name default =>
    exact refits_modifyInstance w i fun x => x.fittings_seedField name default
  | createsAction declared => exact refits_createAction h i kind declared

theorem Orderly.prepare (h : w.Orderly) (i : InstanceId) (kind : InstanceKind)
    (step : Preparation β) : (w.prepare i kind step).Orderly := by
  have hfield {f : Instance β → Instance β} {g : Fittings β → Fittings β}
      (hf : ∀ x, (f x).fittings = g x.fittings)
      (hg : ∀ x, g x = x ∨ ∃ name value, g x = x.setField name value) :
      (w.modifyInstance i f).Orderly := by
    refine h.of_refits (refits_modifyInstance w i hf) (fun x _ => ?_) (fun x _ ht => ?_) rfl rfl
    · rcases hg x with hsame | ⟨name, value, hset⟩
      · rw [hsame]
      · rw [hset]
        rfl
    · rcases hg x with hsame | ⟨name, value, hset⟩
      · rwa [hsame]
      · rw [hset]
        exact ht
  cases step with
  | setsField name value =>
    exact hfield (g := (·.setField name value)) (fun _ => rfl) fun _ => .inr ⟨_, _, rfl⟩
  | bindsChild name child =>
    exact hfield (g := (·.setField (childField name) (.object (some child)))) (fun _ => rfl)
      fun _ => .inr ⟨_, _, rfl⟩
  | seedsField name default =>
    refine hfield (g := (·.seedField name default)) (fun x => x.fittings_seedField name default)
      fun x => ?_
    unfold Fittings.seedField
    split
    · exact .inl rfl
    · exact .inr ⟨_, _, rfl⟩
  | createsAction declared => exact h.createAction i kind declared

theorem fittings_addInstance (w : World β) (ofClass : Class β) (c : ContextId) (i : InstanceId) :
    (w.addInstance ofClass c).1.fittings i =
      (w.fittings i).or (if i = ⟨w.nextInstance⟩ then some (.bare ofClass) else none) := by
  have hfind : (w.addInstance ofClass c).1.instance? i =
      (w.instance? i).or
        (if i = ⟨w.nextInstance⟩ then some { ofClass, context := c } else none) :=
    Table.find?_add _ _ _ _
  unfold fittings
  rw [hfind, Option.map_or]
  split <;> rfl

theorem Orderly.addInstance (h : w.Orderly) (ofClass : Class β) (c : ContextId) :
    (w.addInstance ofClass c).1.Orderly := by
  -- a new instance has no group of its own, and empty tables
  have hbefore {i : InstanceId} {y : Fittings β}
      (hy : (w.addInstance ofClass c).1.fittings i = some y) :
      w.fittings i = some y ∨ y = .bare ofClass := by
    rw [fittings_addInstance] at hy
    rcases Option.or_eq_some_iff.mp hy with hy | ⟨-, hy⟩
    · exact .inl hy
    · split at hy
      · exact .inr (Option.some.inj hy).symm
      · cases hy
  refine ⟨h.groupIds, h.actionIds, h.sorted, fun i y hy => ?_, fun i y g hy hg => ?_,
    fun i j y z g hy hz hgy hgz => ?_⟩
  · rcases hbefore hy with hy | rfl
    · exact h.tables i y hy
    · exact ⟨NameTable.sorted_empty, NameTable.sorted_empty⟩
  · rcases hbefore hy with hy | rfl
    · exact h.owned i y g hy hg
    · cases hg
  · rcases hbefore hy with hy | rfl
    · rcases hbefore hz with hz | rfl
      · exact h.apart i j y z g hy hz hgy hgz
      · cases hgz
    · cases hgy

theorem Orderly.prepared (h : w.Orderly) (con : Construction β) (done : List (Preparation β)) :
    (w.prepared con done).Orderly := by
  induction done using List.reverseRecOn with
  | nil => exact h.addInstance con.ofClass con.context
  | append_singleton done step ih =>
    rw [prepared_append]
    exact ih.prepare _ _ step

/-- What holds of a bare instance, and is kept by each preparation, holds of the new instance however
far it is prepared. -/
theorem Orderly.prepared_induction (h : w.Orderly) (hnew : w.fittings ⟨w.nextInstance⟩ = none)
    {con : Construction β} {P : List (Preparation β) → Fittings β → Prop}
    (hbare : P [] (.bare con.ofClass))
    (hstep : ∀ done step x, (w.prepared con done).fittings ⟨w.nextInstance⟩ = some x → P done x →
      P (done ++ [step]) (step.refit con.ofClass.kind (w.prepared con done).nextAction
        (w.prepared con done).nextGroup x))
    (done : List (Preparation β)) {x : Fittings β}
    (hx : (w.prepared con done).fittings ⟨w.nextInstance⟩ = some x) : P done x := by
  induction done using List.reverseRecOn generalizing x with
  | nil =>
    replace hx := (w.fittings_addInstance con.ofClass con.context _).symm.trans hx
    rw [hnew, if_pos rfl, Option.none_or] at hx
    cases hx
    exact hbare
  | append_singleton done step ih =>
    rw [prepared_append] at hx
    rcases (refits_prepare (h.prepared con done) _ _ step).exists_before hx with
      ⟨-, y, hy, rfl⟩ | ⟨hne, -⟩
    · exact hstep done step y hy (ih hy)
    · exact absurd rfl hne

/-- Preparations have to do with the new instance only. -/
theorem Orderly.fittings_prepared (h : w.Orderly) (con : Construction β)
    (done : List (Preparation β)) {i : InstanceId} (hi : i ≠ ⟨w.nextInstance⟩) :
    (w.prepared con done).fittings i = w.fittings i := by
  induction done using List.reverseRecOn with
  | nil =>
    refine (w.fittings_addInstance con.ofClass con.context i).trans ?_
    rw [if_neg hi, Option.or_none]
  | append_singleton done step ih =>
    rw [prepared_append]
    exact ((refits_prepare (h.prepared con done) _ _ step).other hi).trans ih

/-- What is there after the first move of a construction, whether or not all children are
declared. -/
theorem construct_world (w : World β) (con : Construction β) :
    (w.construct con).world = w ∨ ∃ done, (w.construct con).world = w.prepared con done := by
  unfold construct
  split
  · exact .inl rfl
  · refine .inr ?_
    dsimp only
    generalize con.children.span (fun child => con.ofClass.declaresChild child.1) = parts
    obtain ⟨known, others⟩ := parts
    dsimp only
    cases others with
    | nil =>
      refine ⟨con.presets known ++ con.ofClass.preparations, ?_⟩
      rw [prepared_append, prepared_presets, ← initializeLevels_eq]
      rfl
    | cons child others =>
      refine ⟨con.presets known, ?_⟩
      rw [prepared_presets]
      rfl

theorem Orderly.construct (h : w.Orderly) (con : Construction β) :
    (w.construct con).world.Orderly := by
  rcases w.construct_world con with hsame | ⟨done, hdone⟩
  · rw [hsame]
    exact h
  · rw [hdone]
    exact h.prepared con done

end

end World

/-! ## Commands -/

/-- What a command does to the fittings of an instance that is there. -/
def Command.refit (w : World β) (i : InstanceId) : Command β → Fittings β → Fittings β
  | .setField j name value, x => if j = i then x.setField name value else x
  | .attachAction j a, x =>
    match w.actions.find? a with
    | some action => if j = i then x.attach action.name a w.nextGroup else x
    | none => x
  | .setAccels j name accels, x => if j = i then x.bindAccels name accels else x
  | .ownGroup j, x => if j = i then x.own w.nextGroup else x
  | .insertGroup j qualifier g, x => if j = i then x.insertGroup qualifier g else x
  | _, x => x

namespace World

variable {w : World β}

theorem Refits.fittings_eq {v : World β} {i j : InstanceId} {f : Fittings β → Fittings β}
    (h : Refits j f w v) :
    v.fittings i = (w.fittings i).map fun x => if j = i then f x else x := by
  rw [h i]
  by_cases hij : i = j
  · subst hij
    simp
  · simp [hij, Ne.symm hij]

/-- **What a command does to an instance that is there**, and nothing else. -/
theorem Orderly.fittings_perform (h : w.Orderly) {i : InstanceId} (hi : i ≠ ⟨w.nextInstance⟩)
    (command : Command β) :
    (w.perform command).world.fittings i = (w.fittings i).map (command.refit w i) := by
  have hsame {v : World β} (hv : v.fittings = w.fittings)
      (hc : ∀ x, w.fittings i = some x → command.refit w i x = x) :
      v.fittings i = (w.fittings i).map (command.refit w i) := by
    rw [hv]
    cases hx : w.fittings i with
    | none => rfl
    | some x => exact congrArg some (hc x hx).symm
  -- nothing happens to an instance that is not there
  have hmissing {j : InstanceId} (hj : w.instance? j = none) {x y : Fittings β}
      (hx : w.fittings i = some x) : (if j = i then y else x) = x := by
    refine if_neg fun hij => ?_
    rw [fittings, ← hij, hj] at hx
    cases hx
  cases hrefits : command.refits with
  | false =>
    refine hsame (w.keepsFittings_perform hrefits).fittings ?_
    cases command with
    | setField | attachAction | setAccels | ownGroup | insertGroup => cases hrefits
    | _ => exact fun _ _ => rfl
  | true =>
    cases command with
    | construct con =>
      refine Eq.trans ?_ (hsame (v := w) rfl fun _ _ => rfl)
      show (w.construct con).world.fittings i = _
      rcases w.construct_world con with heq | ⟨done, hdone⟩
      · rw [heq]
      · rw [hdone]
        exact h.fittings_prepared con done hi
    | setField j name value =>
      show (w.writeField j name value).world.fittings i = _
      unfold writeField
      cases hj : w.instance? j with
      | none => exact hsame rfl fun _ => hmissing hj
      | some x =>
        exact (refits_modifyInstance w j (f := (·.setField name value)) fun _ => rfl).fittings_eq
    | setActionState a state =>
      refine hsame ?_ fun _ _ => rfl
      show (w.setActionState a state).world.fittings = _
      unfold setActionState
      split
      · rfl
      · split <;> rfl
    | attachAction j a =>
      show (w.attachAction j a).fittings i = _
      cases ha : w.actions.find? a with
      | none =>
        have hnothing : w.attachAction j a = w := by
          unfold World.attachAction
          rw [ha]
          split
          · next hsome => cases hsome
          · rfl
        exact hsame (by rw [hnothing]) fun x _ => by simp only [Command.refit, ha]
      | some action =>
        refine (w.refits_attachAction j a ha).fittings_eq.trans ?_
        exact congrArg (Option.map · _) (funext fun x => by simp only [Command.refit, ha])
    | setAccels j name accels =>
      exact (refits_modifyInstance w j (f := (·.bindAccels name accels)) fun _ => rfl).fittings_eq
    | ownGroup j =>
      unfold perform
      dsimp only
      cases hj : w.instance? j with
      | none => exact hsame rfl fun _ => hmissing hj
      | some x => exact (w.refits_ownGroup j hj).fittings_eq
    | insertGroup j qualifier g =>
      exact (refits_modifyInstance w j (f := (·.insertGroup qualifier g)) fun _ => rfl).fittings_eq
    | addToGroup g a =>
      refine hsame ?_ fun _ _ => rfl
      show (w.addToGroup g a).world.fittings = _
      unfold addToGroup
      split <;> rfl
    | newAction | enableAction | connectAction | newGroup | removeFromGroup =>
      exact hsame rfl fun _ _ => rfl
    | _ => cases hrefits

theorem Orderly.perform (h : w.Orderly) (command : Command β) :
    (w.perform command).world.Orderly := by
  cases hrefits : command.refits with
  | false => exact h.of_keeps (w.keepsFittings_perform hrefits)
  | true =>
    cases command with
    | construct con => exact h.construct con
    | setField j name value =>
      show (w.writeField j name value).world.Orderly
      unfold writeField
      split
      · exact h
      · exact h.of_refits (refits_modifyInstance w j (f := (·.setField name value)) fun _ => rfl)
          (fun _ _ => rfl) (fun _ _ ht => ht) rfl rfl
    | setActionState a state =>
      show (w.setActionState a state).world.Orderly
      unfold setActionState
      split
      · exact h
      · split
        · exact h.modifyAction a _
        · exact h
    | attachAction j a => exact h.attachAction j a
    | setAccels j name accels =>
      exact h.of_refits
        (refits_modifyInstance w j (f := (·.bindAccels name accels)) fun _ => rfl)
        (fun _ _ => rfl) (fun _ _ ht => ht) rfl rfl
    | ownGroup j =>
      unfold World.perform
      dsimp only
      split
      · exact h
      · next x hx => exact h.ownGroup hx
    | insertGroup j qualifier g =>
      exact h.of_refits
        (refits_modifyInstance w j (f := (·.insertGroup qualifier g)) fun _ => rfl)
        (fun _ _ => rfl) (fun _ _ ht => ⟨ht.1.insert _ _, ht.2⟩) rfl rfl
    | addToGroup g a =>
      show (w.addToGroup g a).world.Orderly
      unfold addToGroup
      split
      · exact h
      · exact h.modifyGroup g fun t ht => ht.insert _ _
    | removeFromGroup g name => exact h.modifyGroup g fun t ht => ht.erase name
    | newAction name options => exact h.addAction _
    | enableAction a enabled => exact h.modifyAction a _
    | connectAction a callback => exact h.modifyAction a _
    | newGroup => exact h.addGroup
    | _ => cases hrefits

end World

/-! ## Runs -/

/-- What the next step does to the fittings of an instance that lives on. -/
def Control.refit (w : World β) (i : InstanceId) : Control β → Fittings β → Fittings β
  | .perform command, x => command.refit w i x
  | _, x => x

namespace Machine

variable {client : Client σ β κ} {m : Machine σ β κ} {i : InstanceId} {x y : Fittings β}

theorem Reachable.fittings_next (hreach : Reachable client m) :
    m.world.fittings ⟨m.world.nextInstance⟩ = none := by
  rw [World.fittings, Option.map_eq_none_iff.mp hreach.values_next]
  rfl

theorem Reachable.ne_next (hreach : Reachable client m) (hx : m.world.fittings i = some x) :
    i ≠ ⟨m.world.nextInstance⟩ := by
  rintro rfl
  rw [hreach.fittings_next] at hx
  cases hx

/-- What is fitted after a step was so after its move. -/
theorem Reachable.fittings_of_step (hreach : Reachable client m)
    (hy : (m.step client).world.fittings i = some y) :
    (m.advance client).world.fittings i = some y := by
  obtain ⟨x, hx, rfl⟩ := Option.map_eq_some_iff.mp hy
  exact World.fittings_eq (hreach.instance_of_step hx)

/-- **In every reachable state, what actions are reached through is in order.** -/
theorem Reachable.actions_orderly (hreach : Reachable client m) : m.world.Orderly := by
  induction hreach with
  | initial state callback =>
    refine ⟨fun g => ?_, fun a => ?_, fun g => NameTable.sorted_empty, fun _ _ hx => ?_,
      fun _ _ _ hx => ?_, fun _ _ _ _ _ hx => ?_⟩
    · exact iff_of_false Bool.false_ne_true (Nat.not_lt_zero _)
    · exact iff_of_false Bool.false_ne_true (Nat.not_lt_zero _)
    · cases hx
    · cases hx
    · cases hx
  | @step m hreach ih =>
    have hadvance : (m.advance client).world.Orderly := by
      rcases fittings_advance client m with hkeeps | ⟨command, -, -, hworld⟩
      · exact ih.of_keeps hkeeps
      · rw [hworld]
        exact ih.perform command
    have hfixtures := sameFixtures_step client m
    exact hadvance.of_fades (fun i x hx => hreach.fittings_of_step hx) hfixtures.groups
      hfixtures.actions

/-- **A step does to an instance that lives on what the command says**, and nothing else. -/
theorem Reachable.fittings_step (hreach : Reachable client m)
    (hi : i ≠ ⟨m.world.nextInstance⟩) (hy : (m.step client).world.fittings i = some y) :
    ∃ x, m.world.fittings i = some x ∧ m.control.refit m.world i x = y := by
  have hadvanced := hreach.fittings_of_step hy
  have hother (hne : ∀ command, m.control ≠ .perform command) : m.world.fittings i = some y := by
    rcases fittings_advance client m with hkeeps | ⟨command, hm, -⟩
    · rwa [hkeeps.fittings] at hadvanced
    · exact absurd hm (hne command)
  cases hm : m.control with
  | perform command =>
    have hworld : (m.advance client).world = (m.world.perform command).world := by
      rw [advance_perform client hm]
      rfl
    rw [hworld, hreach.actions_orderly.fittings_perform hi] at hadvanced
    exact Option.map_eq_some_iff.mp hadvanced
  | invoke | continueTask | deliver => exact ⟨y, hother (by rw [hm]; exact fun _ => nofun), rfl⟩

end Machine

end ObjectSystem
