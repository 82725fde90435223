import ObjectSystem.Proofs.Orderly

/-!
# Own actions

The actions that an instance has *of its own* are those that it finds by a plain name
(`Fittings.ownAction?`): a widget keeps them in its own group, a window or an application directly.
An action that is attached takes the place of an older one of its name (`Fittings.ownAction?_attach`),
and no other instance is affected, since own groups are apart (`World.Orderly.group_attachAction`,
`group_attachAction_other`). Once made, actions go on: they keep their name, the type of their
parameter and everybody who reacts to them (`World.actions_perform`).
-/

namespace ObjectSystem

variable {β : Type}

/-! ## What becomes of actions -/

namespace Action

/-- The action that is made for a declaration. -/
def ofDeclaration (i : InstanceId) (declared : ActionDeclaration β) : Action β :=
  { (ofOptions declared.name declared.options : Action β) with
    handlers := [.declared i declared.callback] }

/-- The same action later: nobody who reacted to it has stopped to. -/
structure Continues (a b : Action β) : Prop where
  name : b.name = a.name
  parameterType : b.parameterType = a.parameterType
  handlers : a.handlers <+: b.handlers

theorem Continues.refl (a : Action β) : a.Continues a :=
  ⟨rfl, rfl, List.prefix_rfl⟩

theorem Continues.trans {a b c : Action β} (h : a.Continues b) (g : b.Continues c) :
    a.Continues c :=
  ⟨g.name.trans h.name, g.parameterType.trans h.parameterType, h.handlers.trans g.handlers⟩

theorem Continues.of_setState {a b : Action β} {state : Value} (h : a.setState state = .ok b) :
    a.Continues b := by
  unfold setState at h
  split at h
  · cases h
  · split at h
    · cases h
      exact ⟨rfl, rfl, List.prefix_rfl⟩
    · cases h

end Action

namespace World

/-- Actions go on, and new ones may be made. -/
def ActionsContinue (w v : World β) : Prop :=
  ∀ a action, w.actions.find? a = some action →
    ∃ later, v.actions.find? a = some later ∧ action.Continues later

namespace ActionsContinue

variable {u v w : World β}

theorem of_eq (h : v.actions = w.actions) : ActionsContinue w v :=
  fun _ action ha => ⟨action, by rw [h, ha], .refl action⟩

theorem trans (h : ActionsContinue u v) (g : ActionsContinue v w) : ActionsContinue u w := by
  intro a action ha
  obtain ⟨later, hlater, hcontinues⟩ := h a action ha
  obtain ⟨last, hlast, hlasts⟩ := g a later hlater
  exact ⟨last, hlast, hcontinues.trans hlasts⟩

theorem addAction (w : World β) (action : Action β) :
    ActionsContinue w (w.addAction action).1 := by
  intro a old ha
  refine ⟨old, ?_, .refl old⟩
  show (w.actions.add w.nextAction action).find? a = _
  rw [Table.find?_add, ha, Option.some_or]

theorem modifyAction (w : World β) (a : ActionId) {f : Action β → Action β}
    (hf : ∀ action, w.actions.find? a = some action → action.Continues (f action)) :
    ActionsContinue w (w.modifyAction a f) := by
  intro other action hother
  have hfind := w.actions.find?_modify a other f
  by_cases h : other = a
  · subst h
    refine ⟨f action, hfind.trans ?_, hf action hother⟩
    rw [if_pos rfl, hother]
    rfl
  · exact ⟨action, (hfind.trans (if_neg h)).trans hother, .refl action⟩

end ActionsContinue

section
variable (w : World β)

theorem actions_ownGroup (i : InstanceId) (x : Instance β) :
    (w.ownGroup i x).1.actions = w.actions := by
  unfold ownGroup
  split <;> rfl

theorem actions_attachAction (i : InstanceId) (a : ActionId) :
    (w.attachAction i a).actions = w.actions := by
  unfold attachAction
  split
  · next x action _ _ =>
    split
    · rfl
    · exact w.actions_ownGroup i x
    · rfl
    · rfl
  · rfl

/-- An action that is declared is all that is made for its declaration. -/
theorem actions_createAction (i : InstanceId) (kind : InstanceKind)
    (declared : ActionDeclaration β) :
    (w.createAction i kind declared).actions =
      (w.addAction (.ofDeclaration i declared)).1.actions := by
  refine Eq.trans ?_ (actions_attachAction (w.addAction (.ofDeclaration i declared)).1 i
    w.nextAction)
  unfold createAction
  dsimp only
  split <;> split <;> rfl

theorem actions_prepare (i : InstanceId) (kind : InstanceKind) (step : Preparation β) :
    ActionsContinue w (w.prepare i kind step) := by
  cases step with
  | setsField | bindsChild | seedsField => exact .of_eq rfl
  | createsAction declared =>
    exact (ActionsContinue.addAction w _).trans (.of_eq (w.actions_createAction i kind declared))

theorem actions_prepared (con : Construction β) (done : List (Preparation β)) :
    ActionsContinue w (w.prepared con done) := by
  induction done using List.reverseRecOn with
  | nil => exact .of_eq rfl
  | append_singleton done step ih =>
    rw [prepared_append]
    exact ih.trans (actions_prepare _ _ _ step)

/-- **Whatever is performed, actions go on.** -/
theorem actions_perform (command : Command β) : ActionsContinue w (w.perform command).world := by
  cases hrefits : command.refits with
  | false => exact .of_eq (w.keepsFittings_perform hrefits).actions
  | true =>
    cases command with
    | construct con =>
      show ActionsContinue w (w.construct con).world
      rcases w.construct_world con with hsame | ⟨done, hdone⟩
      · exact .of_eq (congrArg World.actions hsame)
      · exact hdone ▸ w.actions_prepared con done
    | setField j name value =>
      show ActionsContinue w (w.writeField j name value).world
      unfold writeField
      split <;> exact .of_eq rfl
    | setActionState a state =>
      show ActionsContinue w (w.setActionState a state).world
      unfold setActionState
      split
      · exact .of_eq rfl
      · next action ha =>
        split
        · next changed hchanged =>
          refine .modifyAction w a fun other hother => ?_
          obtain rfl := Option.some.inj (ha.symm.trans hother)
          exact .of_setState hchanged
        · exact .of_eq rfl
    | connectAction a callback =>
      exact .modifyAction w a fun _ _ => ⟨rfl, rfl, List.prefix_append _ _⟩
    | enableAction a enabled => exact .modifyAction w a fun _ _ => ⟨rfl, rfl, List.prefix_rfl⟩
    | newAction name options => exact .addAction w _
    | attachAction j a => exact .of_eq (w.actions_attachAction j a)
    | ownGroup j =>
      unfold perform
      dsimp only
      split
      · exact .of_eq rfl
      · next x _ => exact .of_eq (w.actions_ownGroup j x)
    | addToGroup g a =>
      show ActionsContinue w (w.addToGroup g a).world
      unfold addToGroup
      split <;> exact .of_eq rfl
    | setAccels | newGroup | insertGroup | removeFromGroup => exact .of_eq rfl
    | _ => cases hrefits

end

/-! ## What becomes of groups -/

section
variable {w : World β} {i : InstanceId}

theorem group_modifyGroup_of_ne (w : World β) {g other : GroupId} (hne : other ≠ g)
    (f : ActionGroup → ActionGroup) : (w.modifyGroup g f).group other = w.group other := by
  unfold group
  show ((w.groups.modify g f).find? other).getD .empty = _
  rw [Table.find?_modify, if_neg hne]

/-- A new group of an instance is empty. -/
theorem group_ownGroup (w : World β) (i : InstanceId) (x : Instance β) (g : GroupId) :
    (w.ownGroup i x).1.group g = w.group g := by
  unfold ownGroup
  split
  · rfl
  · exact w.group_addGroup g

theorem ownGroup_snd (w : World β) (i : InstanceId) (x : Instance β) :
    (x.fittings.own w.nextGroup).ownGroup = some (w.ownGroup i x).2 := by
  unfold ownGroup Fittings.own
  cases hown : x.ownGroup with
  | some g =>
    rw [show x.fittings.ownGroup = some g from hown]
    exact hown
  | none =>
    rw [show x.fittings.ownGroup = none from hown]
    rfl

theorem Orderly.group_nextGroup (h : w.Orderly) : w.group w.nextGroup = .empty := by
  rw [group, h.find?_nextGroup]
  rfl

/-- **Attaching an action changes one group at most**: the own one of a widget. -/
theorem Orderly.group_attachAction (h : w.Orderly) {x : Fittings β} (hx : w.fittings i = some x)
    {a : ActionId} {action : Action β} (ha : w.actions.find? a = some action) (g : GroupId) :
    (w.attachAction i a).group g =
      if x.ofClass.kind = .widget ∧ (x.own w.nextGroup).ownGroup = some g then
        (w.group g).insert action.name a
      else w.group g := by
  obtain ⟨y, hy, rfl⟩ := Option.map_eq_some_iff.mp hx
  have hclass : y.fittings.ofClass.kind = y.ofClass.kind := rfl
  unfold World.attachAction
  rw [hy, ha]
  dsimp only
  cases hkind : y.ofClass.kind with
  | object => rw [hclass, hkind, if_neg fun h => nomatch h.1]
  | window | application =>
    rw [hclass, hkind, if_neg fun h => nomatch h.1]
    rfl
  | widget =>
    -- the own group of the widget is a group now
    have hrefits := (w.refits_ownGroup i hy).self hx
    have horderly := h.ownGroup hy
    have howned := horderly.owned i _ _ hrefits (w.ownGroup_snd i y)
    dsimp only
    rw [group_modifyGroup _ _ g _ ((horderly.groupIds _).mpr howned), w.group_ownGroup, hclass,
      hkind, w.ownGroup_snd i y]
    refine ite_congr (propext ?_) (fun _ => rfl) fun _ => rfl
    rw [and_iff_right rfl, Option.some.injEq, eq_comm]

/-- Attaching an action leaves the own groups of other instances alone. -/
theorem Orderly.group_attachAction_other (h : w.Orderly) {x : Fittings β}
    (hx : w.fittings i = some x) {g : GroupId} (hg : x.ownGroup = some g) {j : InstanceId}
    (hj : j ≠ i) (a : ActionId) : (w.attachAction j a).group g = w.group g := by
  have hnothing (hsame : w.attachAction j a = w) : (w.attachAction j a).group g = w.group g :=
    congrArg (World.group · g) hsame
  cases ha : w.actions.find? a with
  | none =>
    refine hnothing ?_
    unfold World.attachAction
    rw [ha]
    cases w.instance? j <;> rfl
  | some action =>
    cases hy : w.instance? j with
    | none =>
      refine hnothing ?_
      unfold World.attachAction
      rw [hy]
    | some y =>
      have hrefits := w.refits_attachAction j a ha
      rw [h.group_attachAction (fittings_eq hy) ha]
      refine if_neg fun ⟨hwidget, hown⟩ => hj ?_
      refine (h.attachAction j a).apart j i _ x g (hrefits.self (fittings_eq hy))
        ((hrefits.other (Ne.symm hj)).trans hx) ?_ hg
      unfold Fittings.attach
      rw [hwidget]
      exact hown

theorem group_createAction (w : World β) (i : InstanceId) (kind : InstanceKind)
    (declared : ActionDeclaration β) (g : GroupId) :
    (w.createAction i kind declared).group g =
      ((w.addAction (.ofDeclaration i declared)).1.attachAction i w.nextAction).group g := by
  unfold createAction
  dsimp only
  split <;> split <;> rfl

theorem Orderly.group_prepare_other (h : w.Orderly) {x : Fittings β} (hx : w.fittings i = some x)
    {g : GroupId} (hg : x.ownGroup = some g) {j : InstanceId} (hj : j ≠ i) (kind : InstanceKind)
    (step : Preparation β) : (w.prepare j kind step).group g = w.group g := by
  cases step with
  | setsField | bindsChild | seedsField => rfl
  | createsAction declared =>
    refine (w.group_createAction j kind declared g).trans ?_
    exact (h.addAction _).group_attachAction_other hx hg hj w.nextAction

theorem Orderly.group_prepared_other (h : w.Orderly) {x : Fittings β} (hx : w.fittings i = some x)
    {g : GroupId} (hg : x.ownGroup = some g) (hi : i ≠ ⟨w.nextInstance⟩) (con : Construction β)
    (done : List (Preparation β)) : (w.prepared con done).group g = w.group g := by
  induction done using List.reverseRecOn with
  | nil => rfl
  | append_singleton done step ih =>
    rw [prepared_append]
    refine Eq.trans ?_ ih
    exact (h.prepared con done).group_prepare_other ((h.fittings_prepared con done hi).trans hx) hg
      (Ne.symm hi) _ step

end

end World

/-! ## Own actions -/

namespace Fittings

/-- The action that an instance has of its own under a name. -/
def ownAction? (w : World β) (x : Fittings β) (name : String) : Option ActionId :=
  (x.actions.find? name).or (x.ownGroup.bind fun g => (w.group g).find? name)

section
variable {w v : World β} {x y : Fittings β}

theorem ownAction?_congr (hactions : y.actions = x.actions) (hown : y.ownGroup = x.ownGroup)
    (hgroup : ∀ g, x.ownGroup = some g → v.group g = w.group g) (name : String) :
    y.ownAction? v name = x.ownAction? w name := by
  unfold ownAction?
  rw [hactions, hown]
  cases hg : x.ownGroup with
  | none => rfl
  | some g => rw [Option.bind_some, Option.bind_some, hgroup g hg]

/-- Taking an empty group as the own one makes no difference. -/
theorem ownAction?_own (hempty : w.group w.nextGroup = .empty)
    (hgroup : ∀ g, v.group g = w.group g) (name : String) :
    (x.own w.nextGroup).ownAction? v name = x.ownAction? w name := by
  cases hown : x.ownGroup with
  | some g =>
    have hsame : x.own w.nextGroup = x := by
      unfold own
      rw [hown]
    rw [hsame]
    exact ownAction?_congr rfl rfl (fun g _ => hgroup g) name
  | none =>
    have htaken : x.own w.nextGroup =
        { x with ownGroup := some w.nextGroup }.insertGroup x.ofClass.typeName w.nextGroup := by
      unfold own
      rw [hown]
    rw [htaken]
    unfold ownAction?
    rw [hown]
    show (x.actions.find? name).or ((v.group w.nextGroup).find? name) = _
    rw [hgroup, hempty]
    rfl

/-- An attached action is found under its name, in place of an older one. -/
theorem ownAction?_attach (h : w.Orderly) {i : InstanceId} (hx : w.fittings i = some x)
    (hkind : x.ofClass.kind ≠ .object)
    (hheld : x.ofClass.kind = .widget → ∀ name, x.actions.find? name = none) {a : ActionId}
    {action : Action β} (ha : w.actions.find? a = some action) (name : String) :
    (x.attach action.name a w.nextGroup).ownAction? (w.attachAction i a) name =
      if name = action.name then some a else x.ownAction? w name := by
  have hgroup := h.group_attachAction hx ha
  have hdirect (hattach : x.attach action.name a w.nextGroup =
        { x with actions := x.actions.insert action.name a })
      (hkept : ∀ g, (w.attachAction i a).group g = w.group g) :
      (x.attach action.name a w.nextGroup).ownAction? (w.attachAction i a) name =
        if name = action.name then some a else x.ownAction? w name := by
    rw [hattach]
    unfold ownAction?
    dsimp only
    rw [NameTable.find?_insert]
    by_cases hname : name = action.name
    · rw [if_pos hname, if_pos hname, Option.some_or]
    · rw [if_neg hname, if_neg hname]
      simp only [hkept]
  cases hk : x.ofClass.kind with
  | object => exact absurd hk hkind
  | window | application =>
    refine hdirect ?_ fun g => (hgroup g).trans (if_neg fun hwidget => ?_)
    · unfold attach
      rw [hk]
    · rw [hk] at hwidget
      exact nomatch hwidget.1
  | widget =>
    -- a widget has its actions in its own group
    have hattach : x.attach action.name a w.nextGroup = x.own w.nextGroup := by
      unfold attach
      rw [hk]
    obtain ⟨g, hg⟩ : ∃ g, (x.own w.nextGroup).ownGroup = some g := by
      unfold own
      split
      · next g hg => exact ⟨g, hg⟩
      · exact ⟨w.nextGroup, rfl⟩
    have hsame := ownAction?_own (x := x) h.group_nextGroup (fun _ => rfl) name
    have hnone : (x.own w.nextGroup).actions.find? name = none := by
      unfold own
      split <;> exact hheld hk name
    rw [hattach, ← hsame]
    unfold ownAction?
    rw [hnone, hg, Option.none_or, Option.none_or, Option.bind_some, Option.bind_some, hgroup g,
      if_pos ⟨hk, hg⟩, NameTable.find?_insert]

end

theorem exposed_create (kind : InstanceKind) (declared : ActionDeclaration β) (a : ActionId)
    (g : GroupId) (x : Fittings β) (field : String) :
    (x.create kind declared a g).exposed.find? field =
      if declared.options.exposeAs = some field then some a else x.exposed.find? field := by
  have hattach : (x.attach declared.name a g).exposed = x.exposed := by
    obtain ⟨_, _, _, h⟩ := x.attach_eq declared.name a g
    rw [h]
  have hbinds :
      (if kind = .application ∧ declared.options.accels ≠ [] then
        (x.attach declared.name a g).bindAccels ("app." ++ declared.name) declared.options.accels
      else x.attach declared.name a g).exposed = x.exposed := by
    split <;> exact hattach
  unfold create
  dsimp only
  rw [← hbinds]
  generalize (if kind = .application ∧ declared.options.accels ≠ [] then _ else _) = y
  cases declared.options.exposeAs with
  | none => exact (if_neg nofun).symm
  | some other =>
    refine (NameTable.find?_insert _ _ _ _).trans ?_
    simp only [Option.some.injEq, eq_comm]

theorem accels_create (kind : InstanceKind) (declared : ActionDeclaration β) (a : ActionId)
    (g : GroupId) (x : Fittings β) (key : String) :
    (x.create kind declared a g).accels.find? key =
      if (kind = .application ∧ declared.options.accels ≠ []) ∧ key = "app." ++ declared.name then
        some declared.options.accels
      else x.accels.find? key := by
  have hattach : (x.attach declared.name a g).accels = x.accels := by
    obtain ⟨_, _, _, h⟩ := x.attach_eq declared.name a g
    rw [h]
  have hexpose (y : Fittings β) : (y.exposeAs declared.options.exposeAs a).accels = y.accels := by
    obtain ⟨_, h⟩ := y.exposeAs_eq declared.options.exposeAs a
    rw [h]
  refine (congrArg (NameTable.find? · key) (hexpose _)).trans ?_
  by_cases hbinds : kind = .application ∧ declared.options.accels ≠ []
  · rw [if_pos hbinds]
    refine (NameTable.find?_insert _ _ _ _).trans ?_
    rw [hattach]
    exact ite_congr (propext ⟨fun h => ⟨hbinds, h⟩, fun h => h.2⟩) (fun _ => rfl) fun _ => rfl
  · rw [if_neg hbinds, if_neg fun h => hbinds h.1, hattach]

end Fittings

end ObjectSystem
