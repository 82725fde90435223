import ObjectSystem.Proofs.Orderly
import ObjectSystem.Proofs.Redeclarations

/-!
# Listed actions

An instance reaches actions in several tables: the one of the actions that it holds directly, and
the groups that were inserted (`World.containers`). The list of its actions has what each of them
holds, behind its qualifier. A lookup cuts a name at its first dot and asks the direct table first.
So everything that a lookup finds is listed, while what is listed is found in its table only if the
cut gives the qualifier back and no directly held actions have it (`listed_actions_resolved`).
-/

namespace ObjectSystem

variable {σ β κ : Type}

open Machine (Reachable)

namespace Name

/-! ## Qualified names -/

theorem cutQualifier_append (cs rest : List Char) :
    cutQualifier (cs ++ '.' :: rest) =
      match cutQualifier cs with
      | none => some (cs, rest)
      | some (qualifier, name) => some (qualifier, name ++ '.' :: rest) := by
  fun_induction cutQualifier cs with
  | case1 => rfl
  | case2 name => rfl
  | case3 c cs hc ih =>
    rw [List.cons_append, cutQualifier.eq_3 _ _ hc, ih]
    cases cutQualifier cs <;> rfl

/-- A qualified name is cut behind the qualifier, unless the qualifier has a dot itself. -/
theorem splitQualifier_append (qualifier name : String) :
    splitQualifier (qualifier ++ "." ++ name) =
      match splitQualifier qualifier with
      | none => some (qualifier, name)
      | some (first, rest) => some (first, rest ++ "." ++ name) := by
  have hchars : (qualifier ++ "." ++ name).toList = qualifier.toList ++ '.' :: name.toList := by
    simp
  unfold splitQualifier
  rw [hchars, cutQualifier_append]
  cases cutQualifier qualifier.toList with
  | none => simp
  | some parts => simp [String.append_assoc]

theorem append_injective (qualifier : String) :
    Function.Injective fun name => qualifier ++ "." ++ name := by
  intro a b hab
  have hchars := congrArg String.toList hab
  simp only [String.toList_append] at hchars
  exact String.toList_injective (List.append_cancel_left hchars)

end Name

/-- The qualifiers of directly held actions have no dot. -/
theorem InstanceKind.splitQualifier_actionQualifier {kind : InstanceKind} {qualifier : String}
    (h : kind.actionQualifier = some qualifier) : Name.splitQualifier qualifier = none := by
  cases kind with
  | object | widget => cases h
  | window | application =>
    cases h
    decide

namespace World

/-! ## Containers -/

/-- The tables that an instance reaches actions in, with their qualifiers. -/
def containers (w : World β) (x : Instance β) : List (String × ActionGroup) :=
  (match x.ofClass.kind.actionQualifier with
    | some qualifier => [(qualifier, x.actions)]
    | none => []) ++ x.groups.entries.map fun entry => (entry.1, w.group entry.2)

/-- The qualified names of what a container holds. -/
def qualifiedNames (container : String × ActionGroup) : List String :=
  container.2.names.map fun name => container.1 ++ "." ++ name

section
variable {w : World β} {x : Instance β}

theorem mem_containers {container : String × ActionGroup} :
    container ∈ w.containers x ↔
      x.ofClass.kind.actionQualifier = some container.1 ∧ container.2 = x.actions ∨
        ∃ g, (container.1, g) ∈ x.groups.entries ∧ container.2 = w.group g := by
  obtain ⟨qualifier, t⟩ := container
  unfold containers
  rw [List.mem_append]
  refine or_congr ?_ ?_
  · cases x.ofClass.kind.actionQualifier with
    | none => simp
    | some own => simp [eq_comm]
  · simp [eq_comm]

/-- An inserted group is a container behind its qualifier. -/
theorem mem_containers_of_find? (w : World β) {x : Instance β} {qualifier : String} {g : GroupId}
    (hg : x.groups.find? qualifier = some g) : (qualifier, w.group g) ∈ w.containers x :=
  mem_containers.mpr (.inr ⟨g, NameTable.mem_of_find? hg, rfl⟩)

/-- The list has what the containers hold. -/
theorem listActions_eq (w : World β) (x : Instance β) :
    w.listActions x = ((w.containers x).flatMap qualifiedNames).mergeSort nameLe := by
  unfold listActions containers
  rw [List.flatMap_append, List.flatMap_map]
  cases x.ofClass.kind.actionQualifier with
  | none => rfl
  | some qualifier =>
    dsimp only
    rw [List.flatMap_singleton]
    rfl

theorem mem_listActions {name : String} :
    name ∈ w.listActions x ↔
      ∃ c ∈ w.containers x, ∃ plain ∈ c.2.names, name = c.1 ++ "." ++ plain := by
  rw [listActions_eq, (List.mergeSort_perm _ _).mem_iff, List.mem_flatMap]
  refine exists_congr fun c => and_congr_right fun _ => ?_
  unfold qualifiedNames
  rw [List.mem_map]
  exact exists_congr fun plain => and_congr_right fun _ => eq_comm

/-- In an orderly world, the actions of every container are sorted. -/
theorem Orderly.sorted_containers (h : w.Orderly) {i : InstanceId} (hx : w.instance? i = some x) :
    ∀ c ∈ w.containers x, c.2.Sorted := by
  intro c hc
  rcases mem_containers.mp hc with ⟨-, hdirect⟩ | ⟨g, -, hgroup⟩
  · exact hdirect ▸ (h.tables i _ (fittings_eq hx)).2
  · exact hgroup ▸ h.sorted g

/-- Nothing is listed twice exactly if no two containers have a qualified name in common. -/
theorem Orderly.nodup_listActions (h : w.Orderly) {i : InstanceId} (hx : w.instance? i = some x) :
    (w.listActions x).Nodup ↔
      (w.containers x).Pairwise fun c d => List.Disjoint (qualifiedNames c) (qualifiedNames d) := by
  rw [listActions_eq, (List.mergeSort_perm _ _).nodup_iff, List.nodup_flatMap]
  refine and_iff_right fun c hc => ?_
  exact (h.sorted_containers hx c hc).nodup_names.map (Name.append_injective c.1)

/-! ## Lookups -/

/-- A directly held action is found under its qualified name. -/
theorem lookupAction?_direct {qualifier : String}
    (hqualifier : x.ofClass.kind.actionQualifier = some qualifier) (plain : String) :
    w.lookupAction? x (qualifier ++ "." ++ plain) = x.actions.find? plain := by
  unfold lookupAction?
  rw [Name.splitQualifier_append, InstanceKind.splitQualifier_actionQualifier hqualifier]
  exact if_pos hqualifier

/-- Behind any other qualifier an action of a group is found, the group being named by what stands
before the first dot of the whole name. -/
theorem lookupAction?_group (w : World β) (x : Instance β) (qualifier plain : String) :
    w.lookupAction? x (qualifier ++ "." ++ plain) =
      match Name.splitQualifier qualifier with
      | none =>
        if x.ofClass.kind.actionQualifier = some qualifier then x.actions.find? plain
        else (x.groups.find? qualifier).bind fun g => (w.group g).find? plain
      | some (first, rest) =>
        if x.ofClass.kind.actionQualifier = some first then x.actions.find? (rest ++ "." ++ plain)
        else (x.groups.find? first).bind fun g => (w.group g).find? (rest ++ "." ++ plain) := by
  unfold lookupAction?
  rw [Name.splitQualifier_append]
  cases Name.splitQualifier qualifier <;> rfl

/-- **What is found under a qualified name is listed.** -/
theorem mem_listActions_of_lookup {name qualifier plain : String}
    (hsplit : Name.splitQualifier name = some (qualifier, plain)) {a : ActionId}
    (hfound : w.lookupAction? x name = some a) : name ∈ w.listActions x := by
  have hname := Name.splitQualifier_join hsplit
  have hlisted {t : ActionGroup} (ht : (qualifier, t) ∈ w.containers x)
      (hplain : t.find? plain = some a) : name ∈ w.listActions x := by
    have hmem : plain ∈ t.names := List.mem_map.mpr ⟨_, NameTable.mem_of_find? hplain, rfl⟩
    exact mem_listActions.mpr ⟨_, ht, plain, hmem, hname⟩
  unfold lookupAction? at hfound
  rw [hsplit] at hfound
  dsimp only at hfound
  split at hfound
  · next hdirect => exact hlisted (mem_containers.mpr (.inl ⟨hdirect, rfl⟩)) hfound
  · obtain ⟨g, hg, hplain⟩ := Option.bind_eq_some_iff.mp hfound
    exact hlisted (mem_containers_of_find? w hg) hplain

/-! ## Plain qualifiers -/

/-- The qualifiers of groups have no dot and are not the one of directly held actions. -/
def PlainlyQualified (x : Instance β) : Prop :=
  ∀ qualifier ∈ x.groups.names,
    Name.splitQualifier qualifier = none ∧ x.ofClass.kind.actionQualifier ≠ some qualifier

/-- Behind plain qualifiers everything is found where it was listed from. -/
theorem Orderly.lookupAction?_container (h : w.Orderly) {i : InstanceId}
    (hx : w.instance? i = some x) (hplain : PlainlyQualified x) {c : String × ActionGroup}
    (hc : c ∈ w.containers x) (plain : String) :
    w.lookupAction? x (c.1 ++ "." ++ plain) = c.2.find? plain := by
  obtain ⟨qualifier, t⟩ := c
  rcases mem_containers.mp hc with ⟨hdirect, rfl⟩ | ⟨g, hg, rfl⟩
  · exact lookupAction?_direct hdirect plain
  · obtain ⟨hdot, hown⟩ := hplain qualifier (List.mem_map.mpr ⟨_, hg, rfl⟩)
    have hfind := (h.tables i _ (fittings_eq hx)).1.find?_eq_some.mpr hg
    rw [lookupAction?_group, hdot]
    dsimp only
    rw [if_neg hown, show x.groups.find? qualifier = some g from hfind]
    rfl

/-- The qualifier of a container is what stands before the first dot of each name in it. -/
theorem splitQualifier_of_plain (hplain : PlainlyQualified x) {c : String × ActionGroup}
    (hc : c ∈ w.containers x) {name : String} (hname : name ∈ qualifiedNames c) :
    ∃ plain, Name.splitQualifier name = some (c.1, plain) := by
  obtain ⟨plain, -, rfl⟩ := List.mem_map.mp hname
  have hdot : Name.splitQualifier c.1 = none := by
    rcases mem_containers.mp hc with ⟨hdirect, -⟩ | ⟨g, hg, -⟩
    · exact InstanceKind.splitQualifier_actionQualifier hdirect
    · exact (hplain c.1 (List.mem_map.mpr ⟨_, hg, rfl⟩)).1
  exact ⟨plain, by rw [Name.splitQualifier_append, hdot]⟩

/-- Behind plain qualifiers nothing is listed twice. -/
theorem Orderly.nodup_of_plain (h : w.Orderly) {i : InstanceId} (hx : w.instance? i = some x)
    (hplain : PlainlyQualified x) : (w.listActions x).Nodup := by
  have hgroups : (x.groups.entries.map (·.1)).Nodup :=
    (h.tables i _ (fittings_eq hx)).1.nodup_names
  have hqualifiers : ((w.containers x).map (·.1)).Nodup := by
    unfold containers
    rw [List.map_append, List.map_map]
    cases hkind : x.ofClass.kind.actionQualifier with
    | none => exact hgroups
    | some own =>
      refine List.nodup_cons.mpr ⟨fun hmem => ?_, hgroups⟩
      exact (hplain own hmem).2 hkind
  rw [h.nodup_listActions hx]
  refine (List.pairwise_map.mp hqualifiers).imp_of_mem fun hc hd hne name hleft hright => hne ?_
  obtain ⟨plain, hcut⟩ := splitQualifier_of_plain hplain hc hleft
  obtain ⟨plain', hcut'⟩ := splitQualifier_of_plain hplain hd hright
  exact (Prod.mk.inj (Option.some.inj (hcut.symm.trans hcut'))).1

end

end World

/-! ## The law -/

/-- **What is listed, and what is found.** Of every instance, at any time:

* the list has the qualified names of what its containers hold, and no name twice exactly if no two
  containers have one in common;
* whatever is found under a name with a dot is listed;
* directly held actions are found under their qualified names;
* an action of a group is found under its qualified name if the qualifier has no dot and is not the
  one of directly held actions; with that one, a directly held action is found or nothing; with a
  dot in the qualifier, the group that is named before the first dot is asked for all that follows,
  or the directly held actions are.

So if the qualifiers of all groups are plain, no name is listed twice and each is found where it was
listed from. -/
theorem listed_actions_resolved (client : Client σ β κ) (m : Machine σ β κ)
    (hreach : Reachable client m) (i : InstanceId) (x : Instance β)
    (hx : m.world.instance? i = some x) :
    (∀ name, name ∈ m.world.listActions x ↔
      ∃ c ∈ m.world.containers x, ∃ plain ∈ c.2.names, name = c.1 ++ "." ++ plain) ∧
    ((m.world.listActions x).Nodup ↔ (m.world.containers x).Pairwise fun c d =>
      List.Disjoint (World.qualifiedNames c) (World.qualifiedNames d)) ∧
    (∀ name qualifier plain a, Name.splitQualifier name = some (qualifier, plain) →
      m.world.lookupAction? x name = some a → name ∈ m.world.listActions x) ∧
    (∀ qualifier plain, x.ofClass.kind.actionQualifier = some qualifier →
      m.world.lookupAction? x (qualifier ++ "." ++ plain) = x.actions.find? plain) ∧
    (∀ qualifier g plain, x.groups.find? qualifier = some g →
      m.world.lookupAction? x (qualifier ++ "." ++ plain) =
        match Name.splitQualifier qualifier with
        | none =>
          if x.ofClass.kind.actionQualifier = some qualifier then x.actions.find? plain
          else (m.world.group g).find? plain
        | some (first, rest) =>
          if x.ofClass.kind.actionQualifier = some first then
            x.actions.find? (rest ++ "." ++ plain)
          else (x.groups.find? first).bind fun g =>
            (m.world.group g).find? (rest ++ "." ++ plain)) ∧
    (World.PlainlyQualified x →
      (m.world.listActions x).Nodup ∧
        ∀ c ∈ m.world.containers x, ∀ plain,
          m.world.lookupAction? x (c.1 ++ "." ++ plain) = c.2.find? plain) := by
  have h := hreach.actions_orderly
  refine ⟨fun name => World.mem_listActions, h.nodup_listActions hx,
    fun name qualifier plain a hsplit => World.mem_listActions_of_lookup hsplit,
    fun qualifier plain hqualifier => World.lookupAction?_direct hqualifier plain,
    fun qualifier g plain hg => ?_,
    fun hplain => ⟨h.nodup_of_plain hx hplain, fun c => h.lookupAction?_container hx hplain⟩⟩
  rw [World.lookupAction?_group, hg]
  rfl

/-- A window, which has an action of its own. -/
def desk : Except ClassError (Registry × Class Nat) :=
  (({ className := "Desk", parent := some (.type Registry.windowType) : ClassBuilder Nat }).action
    "save" {} 1).finalize .builtin

def deskClass : Class Nat :=
  match desk with
  | .ok (_, c) => c
  | .error _ => .simple .empty [] none

/-- A program that makes a window and inserts a group with one action three times: under a plain
qualifier, under one with a dot, and under the one of directly held actions. -/
def clerk : Client Unit Nat (Routine Nat) :=
  .ofRoutines
    (fun
      | 0 => { acts := [.command (.newContext { clock := .manual }),
          .command (.construct { ofClass := deskClass, context := ⟨0⟩ }),
          .command (.newAction "cut" {}), .command .newGroup, .command (.addToGroup ⟨0⟩ ⟨1⟩),
          .command (.insertGroup ⟨1⟩ "edit" ⟨0⟩), .command (.insertGroup ⟨1⟩ "edit.all" ⟨0⟩),
          .command (.insertGroup ⟨1⟩ "win" ⟨0⟩)] }
      | _ => {})
    [.object ⟨1⟩, .action ⟨1⟩, .group ⟨0⟩]

/-- A state of the run of `clerk`. -/
def clerkAfter (n : Nat) : Machine Unit Nat (Routine Nat) :=
  (Machine.initial () 0).after clerk n

/-- What the window of the clerk has in the end. -/
theorem clerk_window : ∃ x, (clerkAfter 20).world.instance? ⟨1⟩ = some x ∧
    x.ofClass.kind = .window ∧ x.actions.find? "save" = some ⟨0⟩ ∧ x.actions.find? "cut" = none ∧
    x.groups.find? "edit" = some ⟨0⟩ ∧ x.groups.find? "edit.all" = some ⟨0⟩ ∧
    x.groups.find? "win" = some ⟨0⟩ := by
  have hfacts : ((clerkAfter 20).world.instance? ⟨1⟩).map (fun x => decide
      (x.ofClass.kind = .window ∧ x.actions.find? "save" = some ⟨0⟩ ∧
        x.actions.find? "cut" = none ∧ x.groups.find? "edit" = some ⟨0⟩ ∧
        x.groups.find? "edit.all" = some ⟨0⟩ ∧ x.groups.find? "win" = some ⟨0⟩)) = some true := by
    decide +kernel
  obtain ⟨x, hx, hparts⟩ := Option.map_eq_some_iff.mp hfacts
  exact ⟨x, hx, of_decide_eq_true hparts⟩

theorem clerk_group : ((clerkAfter 20).world.group ⟨0⟩).find? "cut" = some ⟨1⟩ ∧
    ((clerkAfter 20).world.group ⟨0⟩).find? ("all" ++ "." ++ "cut") = none := by
  decide +kernel

/-- The group of the clerk is found under the plain qualifier only. -/
theorem listed_actions_resolved_clerk : ∃ x, (clerkAfter 20).world.instance? ⟨1⟩ = some x ∧
    (clerkAfter 20).world.lookupAction? x ("win" ++ "." ++ "save") = some ⟨0⟩ ∧
    (clerkAfter 20).world.lookupAction? x ("edit" ++ "." ++ "cut") = some ⟨1⟩ ∧
    (clerkAfter 20).world.lookupAction? x ("edit.all" ++ "." ++ "cut") = none ∧
    (clerkAfter 20).world.lookupAction? x ("win" ++ "." ++ "cut") = none := by
  obtain ⟨x, hx, hkind, hsave, hcut, hedit, hall, hwin⟩ := clerk_window
  obtain ⟨-, -, -, hdirect, hgroup, -⟩ := listed_actions_resolved clerk (clerkAfter 20)
    ((Machine.Reachable.initial () 0).after 20) ⟨1⟩ x hx
  have hown : x.ofClass.kind.actionQualifier = some "win" := by rw [hkind]; rfl
  have hcuts : Name.splitQualifier "edit" = none ∧
      Name.splitQualifier "edit.all" = some ("edit", "all") ∧
      Name.splitQualifier "win" = none := by decide
  refine ⟨x, hx, (hdirect "win" "save" hown).trans hsave, ?_, ?_, ?_⟩
  · rw [hgroup "edit" ⟨0⟩ "cut" hedit, hcuts.1, hown]
    exact clerk_group.1
  · rw [hgroup "edit.all" ⟨0⟩ "cut" hall, hcuts.2.1, hown]
    dsimp only
    rw [if_neg (by decide), hedit, Option.bind_some]
    exact clerk_group.2
  · rw [hgroup "win" ⟨0⟩ "cut" hwin, hcuts.2.2, hown]
    exact hcut

/-- Not every action that is listed is found. -/
theorem listed_action_not_found :
    ¬ ∀ (client : Client Unit Nat (Routine Nat)) (m : Machine Unit Nat (Routine Nat)),
      m.Reachable client → ∀ i x, m.world.instance? i = some x →
        (m.world.listActions x).Nodup ∧
        (∀ c ∈ m.world.containers x, ∀ plain ∈ c.2.names,
          ∃ a, m.world.lookupAction? x (c.1 ++ "." ++ plain) = some a ∧
            (x.actions.find? plain = some a ∨ c.2.find? plain = some a)) ∧
        ∀ name qualifier plain a, Name.splitQualifier name = some (qualifier, plain) →
          m.world.lookupAction? x name = some a → name ∈ m.world.listActions x := by
  intro h
  obtain ⟨x, hx, hkind, -, -, hedit, hall, -⟩ := clerk_window
  obtain ⟨-, hresolved, -⟩ :=
    h clerk (clerkAfter 20) ((Machine.Reachable.initial () 0).after 20) ⟨1⟩ x hx
  have hlisted : "cut" ∈ ((clerkAfter 20).world.group ⟨0⟩).names := by
    have hentry := NameTable.mem_of_find? clerk_group.1
    exact List.mem_map.mpr ⟨_, hentry, rfl⟩
  have hall' := hresolved _ (World.mem_containers_of_find? (clerkAfter 20).world hall)
  dsimp only at hall'
  obtain ⟨a, ha, -⟩ := hall' "cut" hlisted
  have hcut : Name.splitQualifier "edit.all" = some ("edit", "all") := by decide
  rw [World.lookupAction?_group, hcut, hkind] at ha
  dsimp only at ha
  rw [if_neg (by decide), hedit, Option.bind_some, clerk_group.2] at ha
  cases ha

end ObjectSystem
