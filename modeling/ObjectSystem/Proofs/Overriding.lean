import ObjectSystem.Proofs.Making
import ObjectSystem.Proofs.OwnActions

/-!
# Redeclared actions

What a class declares about an action goes to three tables of a new instance: the action itself to
those that the instance has of its own, under its name; its accelerators, on an application, to the
accelerators of the qualified name; and the action again to the exposed ones, under the field that
the declaration gives. Each table keeps the last entry for a key, but a declaration without
accelerators makes no entry in the second, and one without a field none in the third. So of several
declarations of one name the last one is found by a lookup, while what it does not give is left over
from earlier ones (`last_declarations_of_actions`).
-/

namespace ObjectSystem

variable {σ β κ : Type}

open Machine (Reachable)

/-! ## Last declarations -/

/-- All actions that a class declares, the root first. -/
def Class.declaredActions (c : Class β) : List (ActionDeclaration β) :=
  c.rootFirst.flatMap (·.actions)

namespace ActionDeclaration

/-- The last declaration with a property, with its place among all. -/
def last? (p : ActionDeclaration β → Bool) (declared : List (ActionDeclaration β)) :
    Option (ActionDeclaration β × Nat) :=
  (declared.zipIdx.filter (p ·.1)).getLast?

section
variable {p q : ActionDeclaration β → Bool} {declared : List (ActionDeclaration β)}
  {d : ActionDeclaration β} {n : Nat}

theorem last?_concat :
    last? p (declared ++ [d]) =
      if p d = true then some (d, declared.length) else last? p declared := by
  unfold last?
  rw [List.zipIdx_append, List.filter_append, List.getLast?_append]
  by_cases hp : p d = true <;> simp [hp]

/-- If the last one with a weaker property has the stronger one, it is the last one with that. -/
theorem last?_of_imp (h : last? p declared = some (d, n)) (hd : q d = true)
    (himp : ∀ d, q d = true → p d = true) : last? q declared = some (d, n) := by
  induction declared using List.reverseRecOn with
  | nil => cases h
  | append_singleton declared e ih =>
    rw [last?_concat] at h ⊢
    by_cases hp : p e = true
    · rw [if_pos hp] at h
      cases h
      exact if_pos hd
    · rw [if_neg hp] at h
      rw [if_neg fun hq => hp (himp e hq)]
      exact ih h

theorem last?_eq_none : last? p declared = none ↔ ∀ d ∈ declared, ¬ p d = true := by
  induction declared using List.reverseRecOn with
  | nil => exact iff_of_true rfl fun _ => nofun
  | append_singleton declared e ih =>
    rw [last?_concat, List.forall_mem_append, List.forall_mem_singleton]
    by_cases hp : p e = true
    · simp [hp]
    · simp [hp, ih]

theorem getElem?_of_last? (h : last? p declared = some (d, n)) :
    declared[n]? = some d ∧ p d = true := by
  obtain ⟨hmem, hp⟩ := List.mem_filter.mp (List.mem_of_getLast? h)
  exact ⟨List.mem_zipIdx_iff_getElem?.mp hmem, hp⟩

/-- If the last one with a property has another as well, it is the last one with that exactly if
the last one with that has the property. -/
theorem place_eq_iff {d' : ActionDeclaration β} {n' : Nat} (hp : last? p declared = some (d', n'))
    (hd' : q d' = true) (hq : last? q declared = some (d, n)) : n' = n ↔ p d = true := by
  constructor
  · rintro rfl
    obtain ⟨hplace, hgives⟩ := getElem?_of_last? hp
    obtain rfl := Option.some.inj (hplace.symm.trans (getElem?_of_last? hq).1)
    exact hgives
  · intro hd
    -- both are the last one with both properties
    have hboth : last? (fun e => p e && q e) declared = some (d', n') := by
      refine last?_of_imp hp ?_ fun e he => (Bool.and_eq_true_iff.mp he).1
      rw [(getElem?_of_last? hp).2, hd', Bool.and_self]
    have hboth' : last? (fun e => p e && q e) declared = some (d, n) := by
      refine last?_of_imp hq ?_ fun e he => (Bool.and_eq_true_iff.mp he).2
      rw [(getElem?_of_last? hq).2, hd, Bool.and_self]
    exact (Prod.mk.inj (Option.some.inj (hboth.symm.trans hboth'))).2

/-- The accelerators that are found for a name are those of its last declaration exactly if that has
any or none has. -/
theorem accels_eq_iff {name : String} (hlast : last? (·.name = name) declared = some (d, n)) :
    ((last? (fun e => e.name = name ∧ e.options.accels ≠ []) declared).map
        (·.1.options.accels)).getD [] = d.options.accels ↔
      d.options.accels ≠ [] ∨ ∀ e ∈ declared, e.name = name → e.options.accels = [] := by
  have hname := of_decide_eq_true (getElem?_of_last? hlast).2
  by_cases hgives : d.options.accels = []
  · rw [hgives, or_iff_right fun hne => hne rfl]
    cases hany : last? (fun e => e.name = name ∧ e.options.accels ≠ []) declared with
    | none =>
      refine iff_of_true rfl fun e he hbears => ?_
      have hnone := last?_eq_none.mp hany e he
      by_contra hne
      exact hnone (decide_eq_true ⟨hbears, hne⟩)
    | some found =>
      obtain ⟨hplace, hfound⟩ := getElem?_of_last? hany
      obtain ⟨hbears, hne⟩ := of_decide_eq_true hfound
      exact iff_of_false hne fun hall => hne (hall _ (List.mem_of_getElem? hplace) hbears)
  · have hsame : last? (fun e => e.name = name ∧ e.options.accels ≠ []) declared = some (d, n) :=
      last?_of_imp hlast (decide_eq_true ⟨hname, hgives⟩)
        fun e he => decide_eq_true (of_decide_eq_true he).1
    rw [hsame]
    exact iff_of_true rfl (.inl hgives)

end

end ActionDeclaration

/-! ## Arranged actions -/

/-- The actions of an instance are as declarations of them have left them, when `made` tells which
action was made for each. -/
structure Arranged (i : InstanceId) (kind : InstanceKind) (made : Nat → ActionId)
    (declared : List (ActionDeclaration β)) (w : World β) (x : Fittings β) : Prop where
  ofKind : x.ofClass.kind = kind
  /-- A widget holds no actions directly. -/
  held : kind = .widget → ∀ name, x.actions.find? name = none
  actions : ∀ n d, declared[n]? = some d →
    ∃ action, w.actions.find? (made n) = some action ∧ (Action.ofDeclaration i d).Continues action
  own : ∀ name, x.ownAction? w name =
    (ActionDeclaration.last? (·.name = name) declared).map fun d => made d.2
  exposed : ∀ field, x.exposed.find? field =
    (ActionDeclaration.last? (·.options.exposeAs = some field) declared).map fun d => made d.2
  accels : kind = .application → ∀ name, x.accels.find? ("app." ++ name) =
    (ActionDeclaration.last? (fun d => d.name = name ∧ d.options.accels ≠ []) declared).map
      (·.1.options.accels)

namespace Arranged

variable {i : InstanceId} {kind : InstanceKind} {made : Nat → ActionId}
  {declared : List (ActionDeclaration β)} {w v : World β} {x y : Fittings β}

/-- Nothing that has to do with actions changes. -/
theorem congr (h : Arranged i kind made declared w x) (hclass : y.ofClass = x.ofClass)
    (hactions : y.actions = x.actions) (hexposed : y.exposed = x.exposed)
    (haccels : y.accels = x.accels) (hown : ∀ name, y.ownAction? v name = x.ownAction? w name)
    (hgo : World.ActionsContinue w v) : Arranged i kind made declared v y where
  ofKind := hclass ▸ h.ofKind
  held hkind := hactions ▸ h.held hkind
  actions n d hd := by
    obtain ⟨action, haction, hcontinues⟩ := h.actions n d hd
    obtain ⟨later, hlater, hlaters⟩ := hgo _ action haction
    exact ⟨later, hlater, hcontinues.trans hlaters⟩
  own name := (hown name).trans (h.own name)
  exposed := hexposed ▸ h.exposed
  accels := haccels ▸ h.accels

/-- What happens apart from actions and groups makes no difference. -/
theorem elsewhere (h : Arranged i kind made declared w x) (hgroups : v.groups = w.groups)
    (hactions : v.actions = w.actions) : Arranged i kind made declared v x :=
  h.congr rfl rfl rfl rfl
    (Fittings.ownAction?_congr rfl rfl fun g _ => congrFun (World.group_congr hgroups) g)
    (.of_eq hactions)

/-- A bare instance is arranged as no declarations say. -/
theorem bare (w : World β) (i : InstanceId) (made : Nat → ActionId) (c : Class β) :
    Arranged i c.kind made [] w (.bare c) where
  ofKind := rfl
  held _ _ := rfl
  actions _ _ := nofun
  own _ := rfl
  exposed _ := rfl
  accels _ _ := rfl

/-- **One more declaration.** -/
theorem create (h : Arranged i kind made declared w x) (ho : w.Orderly)
    (hx : w.fittings i = some x) (hkind : kind ≠ .object)
    (hnext : made declared.length = w.nextAction) (d : ActionDeclaration β) :
    Arranged i kind made (declared ++ [d]) (w.createAction i kind d)
      (x.create kind d w.nextAction w.nextGroup) := by
  have hcreated : (x.create kind d w.nextAction w.nextGroup).actions =
        (x.attach d.name w.nextAction w.nextGroup).actions ∧
      (x.create kind d w.nextAction w.nextGroup).ownGroup =
        (x.attach d.name w.nextAction w.nextGroup).ownGroup := by
    obtain ⟨_, _, h⟩ := x.create_eq kind d w.nextAction w.nextGroup
    rw [h]
    exact ⟨rfl, rfl⟩
  have hmade : (w.createAction i kind d).actions.find? w.nextAction =
      some (.ofDeclaration i d) := by
    rw [w.actions_createAction i kind d]
    show (w.actions.add w.nextAction _).find? _ = _
    rw [Table.find?_add, ho.find?_nextAction, if_pos rfl, Option.none_or]
  constructor
  case ofKind => rw [x.ofClass_create, h.ofKind]
  case held =>
    intro hwidget name
    rw [hcreated.1]
    unfold Fittings.attach Fittings.own
    rw [h.ofKind, hwidget]
    dsimp only
    split <;> exact h.held hwidget name
  case actions =>
    intro n e he
    rw [List.getElem?_append] at he
    split at he
    · obtain ⟨action, haction, hcontinues⟩ := h.actions n e he
      obtain ⟨later, hlater, hlaters⟩ :=
        w.actions_prepare i kind (.createsAction d) _ action haction
      exact ⟨later, hlater, hcontinues.trans hlaters⟩
    · rw [List.getElem?_singleton] at he
      split at he
      · cases he
        have hlast : n = declared.length := by omega
        exact ⟨_, by rw [hlast, hnext, hmade], .refl _⟩
      · cases he
  case own =>
    intro name
    -- the action is made first, then attached
    have hfind : (w.addAction (.ofDeclaration i d)).1.actions.find? w.nextAction =
        some (.ofDeclaration i d) := by
      rw [← w.actions_createAction i kind d, hmade]
    have hattached := Fittings.ownAction?_attach (ho.addAction (.ofDeclaration i d)) hx
      (h.ofKind ▸ hkind) (fun hwidget => h.held (h.ofKind ▸ hwidget)) hfind name
    have hsame := Fittings.ownAction?_congr hcreated.1 hcreated.2
      (fun g _ => w.group_createAction i kind d g) name
    refine (hsame.trans hattached).trans ?_
    show (if name = d.name then some w.nextAction else x.ownAction? w name) = _
    rw [ActionDeclaration.last?_concat]
    by_cases hname : d.name = name
    · rw [if_pos (decide_eq_true hname), if_pos hname.symm, ← hnext]
      rfl
    · rw [if_neg (Ne.symm hname), if_neg (by simpa using hname)]
      exact h.own name
  case exposed =>
    intro field
    rw [Fittings.exposed_create, h.exposed, ActionDeclaration.last?_concat]
    by_cases hfield : d.options.exposeAs = some field
    · simp [hfield, hnext]
    · simp [hfield]
  case accels =>
    intro happlication name
    rw [Fittings.accels_create, h.accels happlication, ActionDeclaration.last?_concat]
    by_cases hbinds : d.name = name ∧ d.options.accels ≠ []
    · rw [if_pos (decide_eq_true hbinds), hbinds.1, if_pos ⟨⟨happlication, hbinds.2⟩, rfl⟩]
      rfl
    · have hother : ¬((kind = .application ∧ d.options.accels ≠ []) ∧
          "app." ++ name = "app." ++ d.name) :=
        fun h => hbinds ⟨((String.append_right_inj _).mp h.2).symm, h.1.2⟩
      rw [if_neg hother, if_neg (by simpa using hbinds)]

end Arranged

/-! ## Preparations -/

/-- The action that a preparation creates, as it was declared. -/
def Preparation.declaration? : Preparation β → Option (ActionDeclaration β)
  | .createsAction declared => some declared
  | _ => none

/-- A construction creates the declared actions of the class, in order. -/
theorem Construction.declarations_preparations (con : Construction β) :
    con.preparations.filterMap Preparation.declaration? = con.ofClass.declaredActions := by
  have hnone {α : Type} (as : List α) (f : α → Preparation β)
      (hf : ∀ a, (f a).declaration? = none) :
      (as.map f).filterMap Preparation.declaration? = [] := by
    rw [List.filterMap_map, List.filterMap_eq_nil_iff]
    exact fun a _ => hf a
  have hlevel (level : ClassLevel β) :
      level.preparations.filterMap Preparation.declaration? = level.actions := by
    unfold ClassLevel.preparations
    rw [List.filterMap_append, hnone _ _ fun _ => rfl, List.nil_append, List.filterMap_map]
    exact List.filterMap_some
  unfold Construction.preparations Construction.presets Class.preparations Class.declaredActions
  rw [List.filterMap_append, List.filterMap_append, hnone _ _ fun _ => rfl, hnone _ _ fun _ => rfl,
    List.filterMap_flatMap]
  simp only [hlevel]
  rfl

namespace World

/-- The action that is made after so many others. -/
def upcomingAction (w : World β) (n : Nat) : ActionId :=
  ⟨w.actions.entries.length + n⟩

variable {w : World β}

/-- As many actions are made as are declared. -/
theorem nextAction_prepared (con : Construction β) (done : List (Preparation β)) :
    (w.prepared con done).nextAction =
      w.upcomingAction (done.filterMap Preparation.declaration?).length := by
  induction done using List.reverseRecOn with
  | nil => rfl
  | append_singleton done step ih =>
    rw [prepared_append, List.filterMap_append, List.length_append]
    cases step with
    | setsField | bindsChild | seedsField => exact ih
    | createsAction declared =>
      have hlength := congrArg ActionId.number ih
      have hmade := actions_createAction (w.prepared con done) ⟨w.nextInstance⟩ con.ofClass.kind
        declared
      refine congrArg ActionId.mk ?_
      show ((w.prepared con done).createAction _ _ declared).actions.entries.length = _
      rw [hmade]
      refine List.length_append.trans ?_
      exact congrArg (· + 1) hlength

/-- **A prepared instance is arranged as its class declares.** -/
theorem Orderly.arranged_prepared (h : w.Orderly) (hnew : w.fittings ⟨w.nextInstance⟩ = none)
    {con : Construction β} (hkind : con.ofClass.kind ≠ .object) (done : List (Preparation β))
    {x : Fittings β} (hx : (w.prepared con done).fittings ⟨w.nextInstance⟩ = some x) :
    Arranged ⟨w.nextInstance⟩ con.ofClass.kind w.upcomingAction
      (done.filterMap Preparation.declaration?) (w.prepared con done) x := by
  refine h.prepared_induction hnew (P := fun done x => Arranged ⟨w.nextInstance⟩ con.ofClass.kind
    w.upcomingAction (done.filterMap Preparation.declaration?) (w.prepared con done) x)
    (.bare _ _ _ con.ofClass) (fun done step y hy ih => ?_) done hx
  rw [prepared_append]
  have hkeeps {z : Fittings β} (hstep : step.declaration? = none)
      (hz : ∃ fields, z = { y with fields })
      (hgroup : ∀ g, ((w.prepared con done).prepare ⟨w.nextInstance⟩ con.ofClass.kind
        step).group g = (w.prepared con done).group g) :
      Arranged ⟨w.nextInstance⟩ con.ofClass.kind w.upcomingAction
        ((done ++ [step]).filterMap Preparation.declaration?)
        ((w.prepared con done).prepare ⟨w.nextInstance⟩ con.ofClass.kind step) z := by
    rw [List.filterMap_append, List.filterMap_cons_none hstep, List.filterMap_nil, List.append_nil]
    obtain ⟨fields, rfl⟩ := hz
    exact ih.congr rfl rfl rfl rfl (Fittings.ownAction?_congr rfl rfl fun g _ => hgroup g)
      (actions_prepare _ _ _ step)
  cases step with
  | setsField | bindsChild => exact hkeeps rfl ⟨_, rfl⟩ fun _ => rfl
  | seedsField name default =>
    refine hkeeps rfl ?_ fun _ => rfl
    show ∃ fields, y.seedField name default = { y with fields }
    unfold Fittings.seedField
    split
    · exact ⟨y.fields, rfl⟩
    · exact ⟨_, rfl⟩
  | createsAction declared =>
    rw [List.filterMap_append]
    exact ih.create (h.prepared con done) hy hkind (nextAction_prepared con done).symm declared

end World

/-! ## Commands -/

/-- Whether a command has to do with the actions that an instance has of its own, or with its
accelerators. -/
def Command.rearranges (w : World β) (i : InstanceId) : Command β → Bool
  | .attachAction j _ | .setAccels j _ _ => j = i
  | .addToGroup g _ | .removeFromGroup g _ => (w.fittings i).bind (·.ownGroup) = some g
  | _ => false

/-- Whether the next step does. -/
def Control.rearranges (w : World β) (i : InstanceId) : Control β → Bool
  | .perform command => command.rearranges w i
  | _ => false

namespace World

section
variable {w : World β} {i : InstanceId} {x : Fittings β} {command : Command β}

/-- Other commands leave the own group of an instance alone. -/
theorem Orderly.group_perform (h : w.Orderly) (hx : w.fittings i = some x)
    (hi : i ≠ ⟨w.nextInstance⟩) (hc : command.rearranges w i = false) {g : GroupId}
    (hg : x.ownGroup = some g) : (w.perform command).world.group g = w.group g := by
  have hother {other : GroupId}
      (hne : decide ((w.fittings i).bind (·.ownGroup) = some other) = false) : g ≠ other := by
    rw [hx, Option.bind_some, hg] at hne
    exact fun heq => of_decide_eq_false hne (congrArg some heq)
  cases hrefits : command.refits with
  | false => exact congrFun (group_congr (w.keepsFittings_perform hrefits).groups) g
  | true =>
    cases command with
    | construct con =>
      show (w.construct con).world.group g = _
      rcases w.construct_world con with heq | ⟨done, hdone⟩
      · rw [heq]
      · rw [hdone]
        exact h.group_prepared_other hx hg hi con done
    | attachAction j a => exact h.group_attachAction_other hx hg (of_decide_eq_false hc) a
    | addToGroup other a =>
      show (w.addToGroup other a).world.group g = _
      unfold addToGroup
      split
      · rfl
      · exact w.group_modifyGroup_of_ne (hother hc) _
    | removeFromGroup other name => exact w.group_modifyGroup_of_ne (hother hc) _
    | newGroup => exact w.group_addGroup g
    | ownGroup j =>
      unfold World.perform
      dsimp only
      split
      · rfl
      · next y _ => exact w.group_ownGroup j y g
    | setField j name value =>
      show (w.writeField j name value).world.group g = _
      unfold writeField
      split <;> rfl
    | setActionState a state =>
      show (w.setActionState a state).world.group g = _
      unfold setActionState
      split
      · rfl
      · split <;> rfl
    | newAction | enableAction | connectAction | setAccels | insertGroup => rfl
    | _ => cases hrefits

end

end World

/-- **An arrangement lasts** while nobody rearranges the actions of the instance. -/
theorem Arranged.perform {i : InstanceId} {kind : InstanceKind} {made : Nat → ActionId}
    {declared : List (ActionDeclaration β)} {w : World β} {x : Fittings β}
    (h : Arranged i kind made declared w x) (ho : w.Orderly) (hx : w.fittings i = some x)
    (hi : i ≠ ⟨w.nextInstance⟩) {command : Command β} (hc : command.rearranges w i = false) :
    Arranged i kind made declared (w.perform command).world (command.refit w i x) := by
  have hgo := w.actions_perform command
  have hgroup {g : GroupId} (hg : x.ownGroup = some g) := ho.group_perform hx hi hc hg
  have hkeeps {y : Fittings β} (hclass : y.ofClass = x.ofClass) (hactions : y.actions = x.actions)
      (hexposed : y.exposed = x.exposed) (haccels : y.accels = x.accels)
      (hown : y.ownGroup = x.ownGroup) :
      Arranged i kind made declared (w.perform command).world y :=
    h.congr hclass hactions hexposed haccels
      (Fittings.ownAction?_congr hactions hown fun g hg => hgroup hg) hgo
  cases command with
  | attachAction j a =>
    have hother : j ≠ i := of_decide_eq_false hc
    unfold Command.refit
    dsimp only
    split
    · rw [if_neg hother]
      exact hkeeps rfl rfl rfl rfl rfl
    · exact hkeeps rfl rfl rfl rfl rfl
  | setAccels j name accels =>
    have hother : j ≠ i := of_decide_eq_false hc
    unfold Command.refit
    dsimp only
    rw [if_neg hother]
    exact hkeeps rfl rfl rfl rfl rfl
  | setField | insertGroup =>
    unfold Command.refit
    dsimp only
    split <;> exact hkeeps rfl rfl rfl rfl rfl
  | ownGroup j =>
    by_cases hj : j = i
    · subst hj
      obtain ⟨y, hy, rfl⟩ := Option.map_eq_some_iff.mp hx
      have hparts : (y.fittings.own w.nextGroup).actions = y.fittings.actions ∧
          (y.fittings.own w.nextGroup).exposed = y.fittings.exposed ∧
          (y.fittings.own w.nextGroup).accels = y.fittings.accels := by
        obtain ⟨_, _, h⟩ := y.fittings.own_eq w.nextGroup
        rw [h]
        exact ⟨rfl, rfl, rfl⟩
      have hworld : (w.perform (.ownGroup j)).world = (w.ownGroup j y).1 := by
        unfold World.perform
        dsimp only
        rw [hy]
        rfl
      unfold Command.refit
      dsimp only
      rw [if_pos rfl]
      refine h.congr (y.fittings.ofClass_own _) hparts.1 hparts.2.1 hparts.2.2 ?_ hgo
      exact Fittings.ownAction?_own ho.group_nextGroup fun g => by rw [hworld, w.group_ownGroup]
    · unfold Command.refit
      dsimp only
      rw [if_neg hj]
      exact hkeeps rfl rfl rfl rfl rfl
  | _ => exact hkeeps rfl rfl rfl rfl rfl

namespace Machine

variable {client : Client σ β κ} {m : Machine σ β κ} {i : InstanceId} {kind : InstanceKind}
  {made : Nat → ActionId} {declared : List (ActionDeclaration β)} {x : Fittings β}

theorem Reachable.arranged_step (hreach : Reachable client m) (hx : m.world.fittings i = some x)
    (h : Arranged i kind made declared m.world x)
    (hc : m.control.rearranges m.world i = false) :
    Arranged i kind made declared (m.step client).world (m.control.refit m.world i x) := by
  -- the last part of a step takes nothing away but instances
  have hfixtures := sameFixtures_step client m
  have hstep {y : Fittings β} (hy : Arranged i kind made declared (m.advance client).world y) :
      Arranged i kind made declared (m.step client).world y :=
    hy.elsewhere hfixtures.groups hfixtures.actions
  have hother (hne : ∀ command, m.control ≠ .perform command) :
      Arranged i kind made declared (m.step client).world x := by
    rcases fittings_advance client m with hkeeps | ⟨command, hm, -⟩
    · exact hstep (h.elsewhere hkeeps.groups hkeeps.actions)
    · exact absurd hm (hne command)
  cases hm : m.control with
  | perform command =>
    have hworld : (m.advance client).world = (m.world.perform command).world := by
      rw [advance_perform client hm]
      rfl
    rw [hm] at hc
    refine hstep ?_
    rw [hworld]
    exact h.perform hreach.actions_orderly hx (hreach.ne_next hx) hc
  | invoke | continueTask | deliver => exact hother (by rw [hm]; exact fun _ => nofun)

/-- Nobody rearranges the actions of an instance in the steps after the first, before so many. -/
def LeavesActions (client : Client σ β κ) (i : InstanceId) (m : Machine σ β κ) (k : Nat) : Prop :=
  ∀ j, 0 < j → j < k → (m.after client j).control.rearranges (m.after client j).world i = false

/-- **How the actions of a new instance are arranged** until somebody rearranges them. -/
theorem Made.arranged {con : Construction β} {k n : Nat} (h : Made client m con i k)
    (hkind : con.ofClass.kind ≠ .object) (hpos : 0 < n) (hn : n ≤ k)
    (hleaves : LeavesActions client i m n) :
    ∃ x, (m.after client n).world.fittings i = some x ∧
      Arranged i con.ofClass.kind m.world.upcomingAction con.ofClass.declaredActions
        (m.after client n).world x := by
  refine h.run hpos hn (P := fun j x => Arranged i con.ofClass.kind m.world.upcomingAction
    con.ofClass.declaredActions (m.after client j).world x) (fun x hx => ?_)
    fun j hpos hj x hx harranged => ?_
  · rw [h.eq] at hx ⊢
    have hprepared :=
      h.reach.actions_orderly.arranged_prepared h.reach.fittings_next hkind con.preparations hx
    rw [con.declarations_preparations, ← h.prepares] at hprepared
    have hfixtures := sameFixtures_step client m
    exact hprepared.elsewhere hfixtures.groups hfixtures.actions
  · exact (h.reach.after j).arranged_step hx harranged (hleaves j hpos hj)

end Machine

/-! ## The law -/

/-- The last declaration of an action with a property, with its place among all of the class. -/
def Class.lastAction? (c : Class β) (p : ActionDeclaration β → Bool) :
    Option (ActionDeclaration β × Nat) :=
  ActionDeclaration.last? p c.declaredActions

/-- A name without a dot is looked up among the own actions. -/
theorem World.lookupAction?_plain (w : World β) (x : Instance β) {name : String}
    (hname : Name.splitQualifier name = none) :
    w.lookupAction? x name = x.fittings.ownAction? w name := by
  unfold lookupAction?
  rw [hname]
  rfl

/-- **What redeclared actions come to.** While a widget, a window or an application is constructed,
from the first step on until it is replied, or until somebody rearranges its actions:

* every declaration has made an action, in the order of the declarations, the root first;
* a plain name finds the action of the last declaration of the name;
* a field exposes the action of the last declaration that gives the field;
* the accelerators of a qualified name are those of the last declaration of the name that has any.

So a field that exposes an action of some name exposes the one that the name finds exactly if the
last declaration of the name gives the field; and the accelerators are those of the last declaration
exactly if it has any or no declaration of the name has. -/
theorem last_declarations_of_actions (client : Client σ β κ) (m : Machine σ β κ)
    (hreach : Reachable client m) (con : Construction β)
    (hm : m.control = .perform (.construct con)) (i : InstanceId) (k : Nat)
    (hanswers : m.Answers client (.construct con) (.object i) k)
    (hkind : con.ofClass.kind ≠ .object) (t : Nat) (hpos : 0 < t) (ht : t ≤ k)
    (hleaves : m.LeavesActions client i t) :
    ∃ x, (m.after client t).world.instance? i = some x ∧
      (∀ n d, con.ofClass.declaredActions[n]? = some d → ∃ action,
        (m.after client t).world.actions.find? (m.world.upcomingAction n) = some action ∧
          (Action.ofDeclaration i d).Continues action) ∧
      (∀ name, Name.splitQualifier name = none →
        (m.after client t).world.lookupAction? x name =
          (con.ofClass.lastAction? (·.name = name)).map fun d => m.world.upcomingAction d.2) ∧
      (∀ field, x.exposed.find? field =
        (con.ofClass.lastAction? (·.options.exposeAs = some field)).map fun d =>
          m.world.upcomingAction d.2) ∧
      (con.ofClass.kind = .application → ∀ name, x.accels.find? ("app." ++ name) =
        (con.ofClass.lastAction? fun d => d.name = name ∧ d.options.accels ≠ []).map
          (·.1.options.accels)) ∧
      ∀ name d n, Name.splitQualifier name = none →
        con.ofClass.lastAction? (·.name = name) = some (d, n) →
          (∀ field d' n',
            con.ofClass.lastAction? (·.options.exposeAs = some field) = some (d', n') →
            d'.name = name →
            (x.exposed.find? field = (m.after client t).world.lookupAction? x name ↔
              d.options.exposeAs = some field)) ∧
          (con.ofClass.kind = .application →
            ((x.accels.find? ("app." ++ name)).getD [] = d.options.accels ↔
              d.options.accels ≠ [] ∨ ∀ d' ∈ con.ofClass.declaredActions, d'.name = name →
                d'.options.accels = [])) := by
  obtain ⟨y, hy, h⟩ := (hreach.made hm hanswers).arranged hkind hpos ht hleaves
  obtain ⟨x, hx, rfl⟩ := Option.map_eq_some_iff.mp hy
  have hlookup (name : String) (hname : Name.splitQualifier name = none) :
      (m.after client t).world.lookupAction? x name =
        (con.ofClass.lastAction? (·.name = name)).map fun d => m.world.upcomingAction d.2 :=
    (World.lookupAction?_plain _ x hname).trans (h.own name)
  refine ⟨x, hx, h.actions, hlookup, h.exposed, h.accels, fun name d n hname hlast => ⟨?_, ?_⟩⟩
  · intro field d' n' hfield hbears
    have hexposed : x.exposed.find? field = some (m.world.upcomingAction n') := by
      refine (h.exposed field).trans ?_
      rw [show ActionDeclaration.last? _ _ = some (d', n') from hfield]
      rfl
    rw [hlookup name hname, hlast, hexposed]
    have hplace : some (m.world.upcomingAction n') = some (m.world.upcomingAction n) ↔ n' = n := by
      simp [World.upcomingAction]
    refine hplace.trans ?_
    rw [ActionDeclaration.place_eq_iff hfield (decide_eq_true hbears) hlast, decide_eq_true_iff]
  · intro happlication
    rw [show x.accels.find? ("app." ++ name) = _ from h.accels happlication name]
    exact ActionDeclaration.accels_eq_iff hlast

/-- An application, whose action has an accelerator and is exposed. -/
def editor : ClassBuilder Nat :=
  { className := "Editor", parent := some (.type Registry.applicationType) : ClassBuilder Nat
    }.action "quit" { accels := ["<Control>q"], exposeAs := some "leave" } 1

/-- An editor that declares the action anew, plainly. -/
def drawing (parent : Class Nat) : ClassBuilder Nat :=
  { className := "Drawing", parent := some (.declared parent) : ClassBuilder Nat }.action "quit"
    {} 2

/-- The registered drawing program, with its registry. -/
def drawings : Except ClassError (Registry × Class Nat) := do
  let (r, parent) ← editor.finalize .builtin
  (drawing parent).finalize r

def drawingClass : Class Nat :=
  match drawings with
  | .ok (_, c) => c
  | .error _ => .simple .empty [] none

theorem drawingClass_built : drawingClass.Built := by
  unfold drawingClass
  split
  · next r c hc =>
    obtain ⟨⟨r₁, parent⟩, hparent, hfinal⟩ := bind_eq_ok.mp hc
    refine .finalize (.declares (.new rfl rfl) rfl rfl) (fun p hp => ?_) hfinal
    cases hp
    -- the parent is the editor
    refine .finalize (.declares (.new rfl rfl) rfl rfl) (fun p hp => ?_) hparent
    cases hp
  · next e he =>
    have hok : drawings.isOk = true := by decide +kernel
    rw [he] at hok
    cases hok

/-- A drawing program, to be constructed. -/
def drawingPlan : Construction Nat :=
  { ofClass := drawingClass, context := ⟨0⟩ }

/-- A program that makes a drawing program. -/
def painter : Client Unit Nat (Routine Nat) :=
  .ofRoutines
    (fun
      | 0 => { acts := [.command (.newContext { clock := .manual }),
          .command (.construct drawingPlan)] }
      | _ => {})
    [.object ⟨1⟩]

/-- A state of the run of `painter`. -/
def painterAfter (n : Nat) : Machine Unit Nat (Routine Nat) :=
  (Machine.initial () 0).after painter n

/-- What the class and the run of `painter` come to. -/
theorem painter_runs :
    (∀ i, i < 3 → 0 < i →
      (painterAfter 4).stack.length < ((painterAfter 4).after painter i).stack.length) ∧
    ((painterAfter 4).after painter 3).stack.length = (painterAfter 4).stack.length ∧
    ((painterAfter 4).after painter 3).control.made? = some ⟨1⟩ ∧
    (∀ j, j < 3 → 0 < j → ((painterAfter 4).after painter j).control.rearranges
      ((painterAfter 4).after painter j).world ⟨1⟩ = false) ∧
    (painterAfter 4).world.actions.entries.length = 0 ∧
    drawingClass.kind = .application ∧
    (drawingClass.lastAction? (·.name = "quit")).map (fun d => (d.2, d.1.options.accels)) =
      some (1, []) ∧
    (drawingClass.lastAction? (·.options.exposeAs = some "leave")).map
      (fun d => (d.2, d.1.name)) = some (0, "quit") ∧
    (drawingClass.lastAction? fun d => d.name = "quit" ∧ d.options.accels ≠ []).map
      (fun d => (d.2, d.1.options.accels)) = some (0, ["<Control>q"]) := by
  decide +kernel

theorem painter_makes :
    (painterAfter 4).Answers painter (.construct drawingPlan) (.object ⟨1⟩) 3 := by
  have hm : (painterAfter 4).control = .perform (.construct drawingPlan) := by rfl
  obtain ⟨hbusy, hlength, hmade, -⟩ := painter_runs
  exact .of_perform hm (fun i hpos hi => hbusy i hi hpos) hlength (Control.eq_of_made? hmade)

theorem painter_leaves_actions : (painterAfter 4).LeavesActions painter ⟨1⟩ 3 := by
  obtain ⟨-, -, -, hleaves, -⟩ := painter_runs
  exact fun j hpos hj => hleaves j hj hpos

theorem painter_upcomingAction (n : Nat) : (painterAfter 4).world.upcomingAction n = ⟨n⟩ := by
  obtain ⟨-, -, -, -, hnone, -⟩ := painter_runs
  rw [World.upcomingAction, hnone, Nat.zero_add]

theorem drawingPlan_ofClass : drawingPlan.ofClass = drawingClass := by
  rw [drawingPlan]

theorem drawingClass_kind : drawingClass.kind = .application := by
  obtain ⟨-, -, -, -, -, hkind, -⟩ := painter_runs
  exact hkind

/-- The last declaration of the action is the second; the first one gives the field and the
accelerator. -/
theorem drawingClass_quit :
    (∃ d, drawingClass.lastAction? (·.name = "quit") = some (d, 1) ∧ d.options.accels = []) ∧
    (∃ d, drawingClass.lastAction? (·.options.exposeAs = some "leave") = some (d, 0) ∧
      d.name = "quit") ∧
    ∃ d, drawingClass.lastAction? (fun d => d.name = "quit" ∧ d.options.accels ≠ []) =
      some (d, 0) ∧ d.options.accels = ["<Control>q"] := by
  obtain ⟨-, -, -, -, -, -, hlast, hexposed, hgiving⟩ := painter_runs
  have hpair {α : Type} {found : Option (ActionDeclaration Nat × Nat)}
      {f : ActionDeclaration Nat → α} {n : Nat} {a : α}
      (h : found.map (fun d => (d.2, f d.1)) = some (n, a)) :
      ∃ d, found = some (d, n) ∧ f d = a := by
    obtain ⟨⟨d, place⟩, hfound, hd⟩ := Option.map_eq_some_iff.mp h
    obtain ⟨rfl, rfl⟩ := Prod.mk.inj hd
    exact ⟨d, hfound, rfl⟩
  exact ⟨hpair hlast, hpair hexposed, hpair hgiving⟩

/-- What a name finds and what a field exposes are two actions; the accelerator is the old one. -/
theorem last_declarations_of_actions_painter :
    (painterAfter 4).Answers painter (.construct drawingPlan) (.object ⟨1⟩) 3 ∧
      (painterAfter 4).LeavesActions painter ⟨1⟩ 3 ∧
      ∃ x, ((painterAfter 4).after painter 3).world.instance? ⟨1⟩ = some x ∧
        ((painterAfter 4).after painter 3).world.lookupAction? x "quit" = some ⟨1⟩ ∧
        x.exposed.find? "leave" = some ⟨0⟩ ∧
        x.accels.find? ("app." ++ "quit") = some ["<Control>q"] := by
  have hkind : drawingPlan.ofClass.kind ≠ .object := by
    rw [drawingPlan_ofClass, drawingClass_kind]
    exact nofun
  obtain ⟨x, hx, -, hlookup, hexposed, haccels, -⟩ := last_declarations_of_actions painter
    (painterAfter 4) ((Machine.Reachable.initial () 0).after 4) drawingPlan (by rfl) ⟨1⟩ 3
    painter_makes hkind 3 (by decide) le_rfl painter_leaves_actions
  rw [drawingPlan_ofClass] at hlookup hexposed haccels
  obtain ⟨⟨d, hlast, -⟩, ⟨e, hfield, -⟩, f, hgiving, hgives⟩ := drawingClass_quit
  have hdot : Name.splitQualifier "quit" = none := by decide
  refine ⟨painter_makes, painter_leaves_actions, x, hx, ?_, ?_, ?_⟩
  · rw [hlookup "quit" hdot, hlast, Option.map_some, painter_upcomingAction]
  · rw [hexposed "leave", hfield, Option.map_some, painter_upcomingAction]
  · rw [haccels drawingClass_kind "quit", hgiving, Option.map_some, hgives]

/-- Redeclaring an action leaves something of the old one. -/
theorem redeclared_action_leaves_traces :
    ¬ ∀ (client : Client Unit Nat (Routine Nat)) (m : Machine Unit Nat (Routine Nat)),
      m.Reachable client → ∀ con, m.control = .perform (.construct con) → con.ofClass.Built →
        con.ofClass.kind ≠ .object → ∀ i k, m.Answers client (.construct con) (.object i) k →
          m.LeavesActions client i k → ∀ x, (m.after client k).world.instance? i = some x →
            ∀ name d n, con.ofClass.lastAction? (·.name = name) = some (d, n) →
              (m.after client k).world.lookupAction? x name = some (m.world.upcomingAction n) ∧
              (∀ field a action, x.exposed.find? field = some a →
                (m.after client k).world.actions.find? a = some action → action.name = name →
                (m.after client k).world.lookupAction? x name = some a) ∧
              (con.ofClass.kind = .application →
                (x.accels.find? ("app." ++ name)).getD [] = d.options.accels) := by
  intro h
  have hkind : drawingPlan.ofClass.kind ≠ .object := by
    rw [drawingPlan_ofClass, drawingClass_kind]
    exact nofun
  have hfacts : (((painterAfter 4).after painter 3).world.instance? ⟨1⟩).map
      (fun x => x.accels.find? ("app." ++ "quit")) = some (some ["<Control>q"]) := by
    decide +kernel
  obtain ⟨x, hx, hfound⟩ := Option.map_eq_some_iff.mp hfacts
  obtain ⟨⟨d, hlast, hgives⟩, -⟩ := drawingClass_quit
  have hall := h painter (painterAfter 4) ((Machine.Reachable.initial () 0).after 4) drawingPlan
    (by rfl) (drawingPlan_ofClass ▸ drawingClass_built) hkind ⟨1⟩ 3 painter_makes
    painter_leaves_actions x hx
  rw [drawingPlan_ofClass] at hall
  obtain ⟨-, -, haccels⟩ := hall "quit" d 1 hlast
  have hnone := haccels drawingClass_kind
  rw [hfound, hgives] at hnone
  cases hnone

end ObjectSystem
