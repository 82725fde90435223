import Mathlib.Data.List.Flatten
import Mathlib.Data.List.Nodup
import ObjectSystem.Operation.Perform
import ObjectSystem.Proofs.Declared

/-!
# Types and their ancestors

A registration either fails, which changes nothing, or pushes a type that the registry *admits*
behind all others (`World.declares_perform`). Whatever types are declared, the registry therefore stays
*sound* (`Registry.Sound`): names are given once, classes derive from classes registered before them,
and only interfaces are implemented. From soundness alone follows that

* the walk up the parents ends, in `Object` for a class (`Registry.Sound.ascends`);
* `isA` is a partial order (`Registry.Sound.isA_trans`, `Registry.Sound.isA_antisymm`);
* a registry that grows keeps the ancestry of the types that it has (`Registry.Sound.ancestry_grown`),
  so that a class agrees with every later registry about its types.
-/

namespace ObjectSystem

variable {β : Type}

/-! ## Lists -/

namespace Registry

theorem mem_appendNew {types known : List TypeHandle} {type : TypeHandle} :
    type ∈ appendNew known types ↔ type ∈ known ∨ type ∈ types := by
  unfold appendNew
  induction types generalizing known with
  | nil => simp
  | cons first types ih =>
      rw [List.foldl_cons, ih]
      split
      · next hfirst => grind
      · rw [List.mem_append, List.mem_singleton, List.mem_cons, or_assoc]

theorem nodup_appendNew {types known : List TypeHandle} (h : known.Nodup) :
    (appendNew known types).Nodup := by
  unfold appendNew
  induction types generalizing known with
  | nil => exact h
  | cons first types ih =>
      rw [List.foldl_cons]
      split
      · exact ih h
      · next hfirst => exact ih (List.nodup_append.mpr ⟨h, by simp, by grind⟩)

/-- What is added comes behind what was there. -/
theorem appendNew_eq_append (known types : List TypeHandle) :
    ∃ added, appendNew known types = known ++ added ∧ ∀ type ∈ added, type ∈ types := by
  unfold appendNew
  induction types generalizing known with
  | nil => exact ⟨[], by simp⟩
  | cons first types ih =>
      rw [List.foldl_cons]
      split
      · obtain ⟨added, heq, hadded⟩ := ih known
        exact ⟨added, heq, fun type h => List.mem_cons_of_mem _ (hadded type h)⟩
      · obtain ⟨added, heq, hadded⟩ := ih (known ++ [first])
        refine ⟨first :: added, by rw [heq, List.append_assoc]; rfl, fun type h => ?_⟩
        rcases List.mem_cons.mp h with rfl | h
        · exact List.mem_cons_self
        · exact List.mem_cons_of_mem _ (hadded type h)

/-! ## Sound registries -/

/-- No two members share a value or a name. -/
def Distinct (members : List EnumMember) : Prop :=
  members.Pairwise fun a b => a.value ≠ b.value ∧ a.name ≠ b.name

instance (members : List EnumMember) : Decidable (Distinct members) :=
  inferInstanceAs (Decidable (members.Pairwise _))

/-- A type that can be registered next. -/
structure Admits (r : Registry) (info : TypeInfo) : Prop where
  named : info.name ≠ ""
  fresh : ∀ known ∈ r.types, known.name ≠ info.name
  derived : info.kind = .object → ∃ parent base, info.parent = some (.registered parent) ∧
    r.types[parent]? = some base ∧ base.kind = .object ∧ base.flags.isFinal = false
  plain : info.kind ≠ .object → info.parent = none ∧ info.interfaces = []
  implements : ∀ type ∈ info.interfaces, r.kind? type = some .interface
  members : info.kind = .enumeration → info.members ≠ [] ∧ Distinct info.members

/-- What holds of a registry whatever was registered. -/
structure Sound (r : Registry) : Prop where
  named : ∀ info ∈ r.types, info.name ≠ ""
  distinct : (r.types.map (·.name)).Nodup
  /-- `Object` derives from nothing. -/
  root : r.types[0]?.map (fun info => (info.kind, info.parent)) = some (.object, none)
  /-- Every other class derives from a class that was registered before it and is not final. -/
  derived : ∀ (index : Nat) (info : TypeInfo), r.types[index]? = some info → info.kind = .object →
    index ≠ 0 → ∃ parent base, info.parent = some (.registered parent) ∧ parent < index ∧
      r.types[parent]? = some base ∧ base.kind = .object ∧ base.flags.isFinal = false
  /-- Interfaces and enumerations derive from nothing and implement nothing. -/
  plain : ∀ info ∈ r.types, info.kind ≠ .object → info.parent = none ∧ info.interfaces = []
  implements : ∀ info ∈ r.types, ∀ type ∈ info.interfaces, r.kind? type = some .interface
  members : ∀ info ∈ r.types, info.kind = .enumeration → info.members ≠ [] ∧ Distinct info.members

theorem sound_builtin : builtin.Sound where
  named := by decide
  distinct := by decide
  root := rfl
  derived index info h hkind hindex := by
    match index, h with
    | 0, _ => exact absurd rfl hindex
    | 1, h => cases h; exact ⟨0, _, rfl, by decide, rfl, rfl, rfl⟩
    | 2, h => cases h; exact ⟨1, _, rfl, by decide, rfl, rfl, rfl⟩
    | 3, h => cases h; exact ⟨0, _, rfl, by decide, rfl, rfl, rfl⟩
  plain := by decide
  implements := by decide
  members := by decide

/-- What is known of a type stays known when the registry grows. -/
theorem info?_grown {r r' : Registry} (h : r.types <+: r'.types) {t : TypeHandle}
    {info : TypeInfo} (hinfo : r.info? t = some info) : r'.info? t = some info := by
  cases t with
  | null => cases hinfo
  | registered index =>
      obtain ⟨added, hadded⟩ := h
      obtain ⟨hindex, -⟩ := List.getElem?_eq_some_iff.mp hinfo
      unfold info? at hinfo ⊢
      dsimp only at hinfo ⊢
      rw [← hadded, List.getElem?_append_left hindex, hinfo]

theorem kind?_grown {r r' : Registry} (h : r.types <+: r'.types) {type : TypeHandle}
    {kind : TypeKind} (hkind : r.kind? type = some kind) : r'.kind? type = some kind := by
  unfold kind? at hkind ⊢
  obtain ⟨info, hinfo, hkind⟩ := Option.map_eq_some_iff.mp hkind
  rw [info?_grown h hinfo, ← hkind]
  rfl

theorem prefix_push (r : Registry) (info : TypeInfo) : r.types <+: (r.push info).1.types :=
  List.prefix_append _ _

theorem forall_mem_push {r : Registry} {info : TypeInfo} {P : TypeInfo → Prop}
    (h : ∀ known ∈ r.types, P known) (hinfo : P info) :
    ∀ known ∈ (r.push info).1.types, P known := by
  intro known hknown
  rcases List.mem_append.mp hknown with hknown | hknown
  · exact h known hknown
  · rw [List.mem_singleton.mp hknown]
    exact hinfo

/-- **Soundness is kept** by every type that the registry admits. -/
theorem Sound.push {r : Registry} (h : r.Sound) {info : TypeInfo} (hinfo : r.Admits info) :
    (r.push info).1.Sound where
  named := forall_mem_push h.named hinfo.named
  distinct := by
    rw [show (r.push info).1.types = r.types ++ [info] from rfl, List.map_append]
    refine List.nodup_append.mpr ⟨h.distinct, by simp, fun name hname other hother => ?_⟩
    obtain ⟨known, hknown, rfl⟩ := List.mem_map.mp hname
    rw [List.mem_singleton.mp hother]
    exact hinfo.fresh known hknown
  root := by
    obtain ⟨first, hfirst, hroot⟩ := Option.map_eq_some_iff.mp h.root
    rw [show (r.push info).1.types[0]? = some first from
      info?_grown (t := .registered 0) (r.prefix_push info) hfirst]
    exact congrArg some hroot
  derived index known hknown hkind hindex := by
    have hgrown {i : Nat} {base : TypeInfo} (hbase : r.types[i]? = some base) :
        (r.push info).1.types[i]? = some base :=
      info?_grown (t := .registered i) (r.prefix_push info) hbase
    rcases Nat.lt_trichotomy index r.types.length with hlt | rfl | hlt
    · have hold : r.types[index]? = some known := by
        rwa [show (r.push info).1.types = r.types ++ [info] from rfl,
          List.getElem?_append_left hlt] at hknown
      obtain ⟨parent, base, hparent, hlt, hbase, hobject⟩ :=
        h.derived index known hold hkind hindex
      exact ⟨parent, base, hparent, hlt, hgrown hbase, hobject⟩
    · rw [show (r.push info).1.types = r.types ++ [info] from rfl,
        List.getElem?_concat_length] at hknown
      obtain rfl := Option.some.inj hknown
      obtain ⟨parent, base, hparent, hbase, hobject⟩ := hinfo.derived hkind
      obtain ⟨hlt, -⟩ := List.getElem?_eq_some_iff.mp hbase
      exact ⟨parent, base, hparent, hlt, hgrown hbase, hobject⟩
    · rw [List.getElem?_eq_none (by simpa [Registry.push] using Nat.succ_le_of_lt hlt)] at hknown
      cases hknown
  plain := forall_mem_push h.plain hinfo.plain
  implements := by
    -- what was an interface before is still one
    have hgrown {type : TypeHandle} : r.kind? type = some .interface →
        (r.push info).1.kind? type = some .interface := kind?_grown (r.prefix_push info)
    exact forall_mem_push (fun known hknown type htype => hgrown (h.implements known hknown type htype))
      fun type htype => hgrown (hinfo.implements type htype)
  members := forall_mem_push h.members hinfo.members

/-! ## Registration -/

theorem lookup?_eq_none {r : Registry} {name : String} :
    r.lookup? name = none ↔ ∀ info ∈ r.types, info.name ≠ name := by
  simp [lookup?]

theorem checkName_eq_ok {r : Registry} {name : String} :
    r.checkName name = .ok () ↔ name ≠ "" ∧ ∀ info ∈ r.types, info.name ≠ name := by
  unfold checkName
  rw [← lookup?_eq_none]
  split
  · next hname => exact ⟨fun h => (by cases h), fun h => absurd hname h.1⟩
  · next hname =>
      cases hlookup : r.lookup? name with
      | none => exact ⟨fun _ => ⟨hname, rfl⟩, fun _ => rfl⟩
      | some type => exact ⟨fun h => (by cases h), fun h => (by cases h.2)⟩

/-- The members that are collected have distinct values and names. -/
theorem distinct_of_collectMembers {typeName : String} {known members collected : List EnumMember}
    (h : collectMembers typeName known members = .ok collected) (hknown : Distinct known) :
    Distinct collected := by
  induction members generalizing known with
  | nil =>
      cases h
      exact hknown
  | cons member rest ih =>
      unfold collectMembers at h
      split at h
      · cases h
      · next hmember =>
          refine ih h (List.pairwise_append.mpr ⟨hknown, List.pairwise_singleton _ _, ?_⟩)
          intro m hm m' hm'
          rw [List.mem_singleton.mp hm']
          rw [← not_or]
          exact fun hor => hmember (List.any_eq_true.mpr ⟨m, hm, by simpa using hor⟩)

/-- What a successful registration yields: one more type, which the registry admits. -/
def Adds (r : Registry) (result : Registry × TypeHandle) : Prop :=
  ∃ info, r.Admits info ∧ result = r.push info

theorem adds_of_registerEnum {r : Registry} {name : String} {members : List EnumMember}
    {result : Registry × TypeHandle} (h : r.registerEnum name members = .ok result) :
    r.Adds result := by
  obtain ⟨⟨⟩, hname, h⟩ := bind_eq_ok.mp h
  obtain ⟨collected, hcollected, h⟩ := bind_eq_ok.mp h
  obtain ⟨hnamed, hfresh⟩ := checkName_eq_ok.mp hname
  split at h
  · cases h
  · next hempty =>
      cases h
      refine ⟨_, ⟨hnamed, hfresh, ?_, fun _ => ⟨rfl, rfl⟩, ?_, fun _ => ⟨?_, ?_⟩⟩, rfl⟩
      · rintro ⟨⟩
      · rintro type ⟨⟩
      · simpa using hempty
      · exact distinct_of_collectMembers hcollected .nil

theorem adds_of_registerInterface {r : Registry} {name : String} {result : Registry × TypeHandle}
    (h : r.registerInterface name = .ok result) : r.Adds result := by
  obtain ⟨⟨⟩, hname, h⟩ := bind_eq_ok.mp h
  obtain ⟨hnamed, hfresh⟩ := checkName_eq_ok.mp hname
  cases h
  refine ⟨_, ⟨hnamed, hfresh, ?_, fun _ => ⟨rfl, rfl⟩, ?_, ?_⟩, rfl⟩
  · rintro ⟨⟩
  · rintro type ⟨⟩
  · rintro ⟨⟩

theorem adds_of_registerClass {r : Registry} {c : ClassRegistration}
    {result : Registry × TypeHandle} (h : r.registerClass c = .ok result) : r.Adds result := by
  obtain ⟨⟨⟩, hname, h⟩ := bind_eq_ok.mp h
  obtain ⟨hnamed, hfresh⟩ := checkName_eq_ok.mp hname
  split at h
  · cases h
  · next base hbase =>
      split at h
      · cases h
      · next hkind =>
          split at h
          · cases h
          · next hfinal =>
              split at h
              · cases h
              · next hinterfaces =>
                  cases h
                  refine ⟨_, ⟨hnamed, hfresh, fun _ => ?_, ?_, ?_, ?_⟩, rfl⟩
                  · cases hparent : c.parent with
                    | null =>
                        rw [hparent] at hbase
                        cases hbase
                    | registered parent =>
                        rw [hparent] at hbase
                        exact ⟨parent, base, rfl, hbase, by simpa using hkind, by simpa using hfinal⟩
                  · intro hobject
                    exact absurd rfl hobject
                  · intro type htype
                    by_contra hnot
                    exact hinterfaces (List.any_eq_true.mpr ⟨type, htype, by simpa using hnot⟩)
                  · rintro ⟨⟩

theorem Sound.adds {r : Registry} (h : r.Sound) {result : Registry × TypeHandle}
    (hadds : r.Adds result) : result.1.Sound := by
  obtain ⟨info, hinfo, rfl⟩ := hadds
  exact h.push hinfo

/-! ## Names -/

/-- **Looking a name up and asking a type for its name are inverse to each other.** -/
theorem Sound.typeName?_eq_some {r : Registry} (h : r.Sound) {type : TypeHandle} {name : String} :
    r.typeName? type = some name ↔ r.lookup? name = some type := by
  unfold typeName? lookup?
  rw [Option.map_eq_some_iff, Option.map_eq_some_iff]
  constructor
  · rintro ⟨info, hinfo, rfl⟩
    cases type with
    | null => cases hinfo
    | registered index =>
        obtain ⟨hindex, rfl⟩ := List.getElem?_eq_some_iff.mp hinfo
        refine ⟨index, List.findIdx?_eq_some_iff_getElem.mpr ⟨hindex, by simp, fun j hj => ?_⟩, rfl⟩
        -- a type of the same name further ahead would be the same type
        intro hsame
        have hsame : r.types[j].name = r.types[index].name := by simpa using hsame
        have hlt := List.nodup_iff_pairwise_ne.mp h.distinct
        rw [List.pairwise_map] at hlt
        exact List.pairwise_iff_getElem.mp hlt j index (Nat.lt_trans hj hindex) hindex hj hsame
  · rintro ⟨index, hfind, rfl⟩
    obtain ⟨hindex, hname, -⟩ := List.findIdx?_eq_some_iff_getElem.mp hfind
    exact ⟨_, List.getElem?_eq_getElem hindex, by simpa using hname⟩

/-! ## Walking up -/

/-- The walk from a type up its parents, as long as there are any: it visits just these types and
ends. -/
inductive Ascends (r : Registry) : TypeHandle → List TypeHandle → Prop
  | root {type : TypeHandle} (h : r.parent? type = none) : Ascends r type [type]
  | up {type parent : TypeHandle} {chain : List TypeHandle} (h : r.parent? type = some parent)
      (hrest : Ascends r parent chain) : Ascends r type (type :: chain)

/-- A parent is a class that was registered before its child. -/
theorem Sound.parent?_eq_some {r : Registry} (h : r.Sound) {type parent : TypeHandle}
    (hparent : r.parent? type = some parent) :
    ∃ index i, type = .registered index ∧ parent = .registered i ∧ i < index ∧
      r.kind? type = some .object ∧ r.kind? parent = some .object ∧
      (r.flags parent).isFinal = false := by
  cases type with
  | null => cases hparent
  | registered index =>
      obtain ⟨info, hinfo, hup⟩ := Option.bind_eq_some_iff.mp hparent
      have hinfo : r.types[index]? = some info := hinfo
      have hkind : info.kind = .object := by
        by_contra hkind
        rw [(h.plain info (List.mem_of_getElem? hinfo) hkind).1] at hup
        cases hup
      have hindex : index ≠ 0 := by
        rintro rfl
        have hroot := h.root
        rw [hinfo, Option.map_some, hup] at hroot
        exact absurd (congrArg Prod.snd (Option.some.inj hroot)) (Option.some_ne_none _)
      obtain ⟨i, base, hi, hlt, hbase, hobject, hfinal⟩ := h.derived index info hinfo hkind hindex
      rw [hup] at hi
      refine ⟨index, i, rfl, Option.some.inj hi, hlt, ?_, ?_, ?_⟩
      · simp [kind?, info?, hinfo, hkind]
      · rw [Option.some.inj hi]
        simp [kind?, info?, hbase, hobject]
      · rw [Option.some.inj hi]
        simp [flags, info?, hbase, hfinal]

/-- What holds of a type if it holds of its parent holds of every type. -/
theorem Sound.ascending_induction {r : Registry} (h : r.Sound) {motive : TypeHandle → Prop}
    (root : ∀ type, r.parent? type = none → motive type)
    (up : ∀ type parent, r.parent? type = some parent → motive parent → motive type)
    (type : TypeHandle) : motive type := by
  cases type with
  | null => exact root _ rfl
  | registered index =>
      induction index using Nat.strongRecOn with
      | _ index ih =>
          cases hparent : r.parent? (.registered index) with
          | none => exact root _ hparent
          | some parent =>
              obtain ⟨_, i, hindex, rfl, hlt, -⟩ := h.parent?_eq_some hparent
              cases hindex
              exact up _ _ hparent (ih i hlt)

theorem parentChain_root {r : Registry} {type : TypeHandle} (hparent : r.parent? type = none) :
    r.parentChain type = [type] := by
  cases type with
  | null => rw [parentChain]
  | registered index => rw [parentChain, hparent]

theorem Sound.parentChain_up {r : Registry} (h : r.Sound) {type parent : TypeHandle}
    (hparent : r.parent? type = some parent) :
    r.parentChain type = type :: r.parentChain parent := by
  obtain ⟨index, i, rfl, rfl, hlt, -⟩ := h.parent?_eq_some hparent
  rw [parentChain, hparent]
  exact if_pos hlt

/-- **The walk up the parents ends**, whichever type it starts from. -/
theorem Sound.ascends {r : Registry} (h : r.Sound) (type : TypeHandle) :
    r.Ascends type (r.parentChain type) := by
  induction type using h.ascending_induction with
  | root type hparent =>
      rw [parentChain_root hparent]
      exact .root hparent
  | up type parent hparent ih =>
      rw [h.parentChain_up hparent]
      exact .up hparent ih

theorem head?_parentChain (r : Registry) (type : TypeHandle) :
    (r.parentChain type).head? = some type := by
  cases type with
  | null => rw [parentChain, List.head?_cons]
  | registered index =>
      rw [parentChain]
      split
      · split <;> rfl
      · rfl

theorem mem_parentChain_self (r : Registry) (type : TypeHandle) : type ∈ r.parentChain type :=
  List.mem_of_head? (r.head?_parentChain type)

/-- The walk from an ancestor is the rest of the walk that leads to it. -/
theorem Sound.parentChain_suffix {r : Registry} (h : r.Sound) {type ancestor : TypeHandle}
    (hmem : ancestor ∈ r.parentChain type) : r.parentChain ancestor <:+ r.parentChain type := by
  induction type using h.ascending_induction with
  | root type hparent =>
      rw [parentChain_root hparent, List.mem_singleton] at hmem
      subst hmem
      exact List.suffix_rfl
  | up type parent hparent ih =>
      rw [h.parentChain_up hparent] at hmem
      rcases List.mem_cons.mp hmem with rfl | hmem
      · exact List.suffix_rfl
      · rw [h.parentChain_up hparent]
        exact (ih hmem).trans (List.suffix_cons _ _)

/-- Ancestors were registered before their descendants. -/
theorem Sound.le_of_mem_parentChain {r : Registry} (h : r.Sound) {index : Nat}
    {ancestor : TypeHandle} (hmem : ancestor ∈ r.parentChain (.registered index)) :
    ∃ i, ancestor = .registered i ∧ i ≤ index := by
  generalize htype : TypeHandle.registered index = type at hmem
  induction type using h.ascending_induction generalizing index with
  | root type hparent =>
      rw [parentChain_root hparent, List.mem_singleton] at hmem
      exact ⟨index, hmem.trans htype.symm, Nat.le_refl _⟩
  | up type parent hparent ih =>
      obtain ⟨_, i, rfl, rfl, hlt, -⟩ := h.parent?_eq_some hparent
      obtain rfl := TypeHandle.registered.inj htype
      rw [h.parentChain_up hparent] at hmem
      rcases List.mem_cons.mp hmem with rfl | hmem
      · exact ⟨index, rfl, Nat.le_refl _⟩
      · obtain ⟨j, rfl, hj⟩ := ih rfl hmem
        exact ⟨j, rfl, by omega⟩

theorem Sound.nodup_parentChain {r : Registry} (h : r.Sound) (type : TypeHandle) :
    (r.parentChain type).Nodup := by
  induction type using h.ascending_induction with
  | root type hparent =>
      rw [parentChain_root hparent]
      exact List.nodup_singleton _
  | up type parent hparent ih =>
      rw [h.parentChain_up hparent]
      refine List.nodup_cons.mpr ⟨fun hmem => ?_, ih⟩
      obtain ⟨index, i, rfl, rfl, hlt, -⟩ := h.parent?_eq_some hparent
      obtain ⟨j, hj, hle⟩ := h.le_of_mem_parentChain hmem
      cases hj
      omega

/-- **The parents of a class lead to `Object`.** -/
theorem Sound.getLast?_parentChain {r : Registry} (h : r.Sound) {type : TypeHandle}
    (hkind : r.kind? type = some .object) : (r.parentChain type).getLast? = some objectType := by
  induction type using h.ascending_induction with
  | root type hparent =>
      rw [parentChain_root hparent]
      cases type with
      | null => cases hkind
      | registered index =>
          obtain ⟨info, hinfo, hkind⟩ := Option.map_eq_some_iff.mp hkind
          by_cases hindex : index = 0
          · rw [hindex]
            rfl
          · obtain ⟨i, base, hup, -⟩ := h.derived index info hinfo hkind hindex
            rw [show r.parent? (.registered index) = some (.registered i) by
              simp only [parent?, hinfo, Option.bind_some, hup]] at hparent
            cases hparent
  | up type parent hparent ih =>
      obtain ⟨-, -, -, -, -, -, hobject, -⟩ := h.parent?_eq_some hparent
      rw [h.parentChain_up hparent, List.getLast?_cons, ih hobject]
      rfl

/-! ## Ancestry -/

theorem isA_iff {r : Registry} {type ancestor : TypeHandle} :
    r.isA type ancestor = true ↔ ancestor ∈ r.parentChain type ∨
      ∃ above ∈ r.parentChain type, ancestor ∈ r.interfaces above := by
  unfold isA ancestry
  rw [decide_eq_true_iff, mem_appendNew, List.mem_flatMap]

theorem isA_self (r : Registry) (type : TypeHandle) : r.isA type type = true :=
  isA_iff.mpr (.inl (r.mem_parentChain_self type))

/-- What a type lists as implemented is an interface. -/
theorem Sound.kind?_of_mem_interfaces {r : Registry} (h : r.Sound) {type implemented : TypeHandle}
    (hmem : implemented ∈ r.interfaces type) : r.kind? implemented = some .interface := by
  unfold interfaces at hmem
  cases hinfo : r.info? type with
  | none =>
      rw [hinfo] at hmem
      cases hmem
  | some info =>
      rw [hinfo] at hmem
      cases type with
      | null => cases hinfo
      | registered index => exact h.implements info (List.mem_of_getElem? hinfo) _ hmem

/-- An interface has nothing above it. -/
theorem Sound.isA_of_interface {r : Registry} (h : r.Sound) {type ancestor : TypeHandle}
    (hkind : r.kind? type = some .interface) (hisA : r.isA type ancestor = true) :
    ancestor = type := by
  obtain ⟨info, hinfo, hinterface⟩ := Option.map_eq_some_iff.mp hkind
  cases type with
  | null => cases hinfo
  | registered index =>
      obtain ⟨hparent, hinterfaces⟩ := h.plain info (List.mem_of_getElem? hinfo)
        (by rw [hinterface]; decide)
      have hchain : r.parentChain (.registered index) = [.registered index] :=
        parentChain_root (by simp only [parent?, hinfo, Option.bind_some, hparent])
      rcases isA_iff.mp hisA with hmem | ⟨above, habove, hmem⟩
      · rw [hchain] at hmem
        exact List.mem_singleton.mp hmem
      · rw [hchain] at habove
        rw [List.mem_singleton.mp habove] at hmem
        simp [interfaces, hinfo, hinterfaces] at hmem

theorem Sound.isA_trans {r : Registry} (h : r.Sound) {a b c : TypeHandle}
    (hab : r.isA a b = true) (hbc : r.isA b c = true) : r.isA a c = true := by
  rcases isA_iff.mp hab with hb | ⟨above, -, hb⟩
  · have hsub := (h.parentChain_suffix hb).subset
    rcases isA_iff.mp hbc with hc | ⟨above, habove, hc⟩
    · exact isA_iff.mpr (.inl (hsub hc))
    · exact isA_iff.mpr (.inr ⟨above, hsub habove, hc⟩)
  · rw [h.isA_of_interface (h.kind?_of_mem_interfaces hb) hbc]
    exact hab

theorem Sound.isA_antisymm {r : Registry} (h : r.Sound) {a b : TypeHandle}
    (hab : r.isA a b = true) (hba : r.isA b a = true) : a = b := by
  rcases isA_iff.mp hab with hb | ⟨above, -, hb⟩
  · rcases isA_iff.mp hba with ha | ⟨above, -, ha⟩
    · -- each walk is part of the other, so they are one
      have heq := (h.parentChain_suffix ha).eq_of_length_le (h.parentChain_suffix hb).length_le
      have hhead := r.head?_parentChain a
      rw [heq, r.head?_parentChain b] at hhead
      exact (Option.some.inj hhead).symm
    · exact (h.isA_of_interface (h.kind?_of_mem_interfaces ha) hab).symm
  · exact h.isA_of_interface (h.kind?_of_mem_interfaces hb) hba

theorem Sound.nodup_ancestry {r : Registry} (h : r.Sound) (type : TypeHandle) :
    (r.ancestry type).Nodup :=
  nodup_appendNew (h.nodup_parentChain type)

/-- The ancestry begins with the walk up the parents; the rest are interfaces. -/
theorem Sound.ancestry_eq {r : Registry} (h : r.Sound) (type : TypeHandle) :
    ∃ implemented, r.ancestry type = r.parentChain type ++ implemented ∧
      ∀ interface ∈ implemented, r.kind? interface = some .interface := by
  obtain ⟨implemented, heq, hmem⟩ :=
    appendNew_eq_append (r.parentChain type) ((r.parentChain type).flatMap r.interfaces)
  refine ⟨implemented, heq, fun interface hinterface => ?_⟩
  obtain ⟨above, -, habove⟩ := List.mem_flatMap.mp (hmem interface hinterface)
  exact h.kind?_of_mem_interfaces habove

theorem parent?_grown {r r' : Registry} (hgrown : r.types <+: r'.types) {type : TypeHandle}
    (hknown : (r.info? type).isSome) :
    r'.parent? type = r.parent? type ∧ r'.interfaces type = r.interfaces type := by
  obtain ⟨info, hinfo⟩ := Option.isSome_iff_exists.mp hknown
  unfold parent? interfaces
  rw [info?_grown hgrown hinfo, hinfo]
  exact ⟨rfl, rfl⟩

/-- A registry that grows keeps the walk up from a type that it has, and what is implemented on the
way. -/
theorem Sound.parentChain_grown {r r' : Registry} (h : r.Sound) (h' : r'.Sound)
    (hgrown : r.types <+: r'.types) {type : TypeHandle} (hknown : (r.info? type).isSome) :
    r'.parentChain type = r.parentChain type ∧
      ∀ above ∈ r.parentChain type, r'.interfaces above = r.interfaces above := by
  induction type using h.ascending_induction with
  | root type hparent =>
      obtain ⟨hsame, hinterfaces⟩ := parent?_grown hgrown hknown
      rw [parentChain_root hparent, parentChain_root (hsame.trans hparent)]
      refine ⟨rfl, fun above habove => ?_⟩
      rw [List.mem_singleton.mp habove, hinterfaces]
  | up type parent hparent ih =>
      obtain ⟨hsame, hinterfaces⟩ := parent?_grown hgrown hknown
      -- the parent is registered too, so it has kept its own walk
      obtain ⟨-, -, -, -, -, -, hobject, -⟩ := h.parent?_eq_some hparent
      obtain ⟨base, hbase, -⟩ := Option.map_eq_some_iff.mp hobject
      obtain ⟨hchain, habove⟩ := ih (by rw [hbase]; rfl)
      rw [h.parentChain_up hparent, h'.parentChain_up (hsame.trans hparent), hchain]
      exact ⟨rfl, List.forall_mem_cons.mpr ⟨hinterfaces, habove⟩⟩

/-- **A registry that grows keeps the ancestry of the types that it has.** -/
theorem Sound.ancestry_grown {r r' : Registry} (h : r.Sound) (h' : r'.Sound)
    (hgrown : r.types <+: r'.types) {type : TypeHandle} (hknown : (r.info? type).isSome) :
    r'.ancestry type = r.ancestry type := by
  obtain ⟨hchain, hinterfaces⟩ := h.parentChain_grown h' hgrown hknown
  unfold ancestry
  dsimp only
  rw [hchain, List.flatMap_congr hinterfaces]

/-! ## The laws of a registry -/

/-- What a registry promises about its types. -/
structure Lawful (r : Registry) : Prop where
  named : ∀ type name, r.typeName? type = some name → name ≠ ""
  unique : ∀ a b name, r.typeName? a = some name → r.typeName? b = some name → a = b
  inverse : ∀ type name, r.typeName? type = some name ↔ r.lookup? name = some type
  /-- Every class but `Object` derives from a class that was registered before it and is not final. -/
  derived : ∀ type, r.kind? type = some .object → type ≠ objectType →
    ∃ index parent, type = .registered index ∧ r.parent? type = some (.registered parent) ∧
      parent < index ∧ r.kind? (.registered parent) = some .object ∧
      (r.flags (.registered parent)).isFinal = false
  implements : ∀ type, ∀ implemented ∈ r.interfaces type, r.kind? implemented = some .interface
  members : ∀ type members, r.enumMembers? type = some members → members ≠ [] ∧ Distinct members
  /-- The walk up the parents ends, whichever handle it starts from, and leads a class to `Object`. -/
  ascends : ∀ type, r.Ascends type (r.parentChain type)
  toObject : ∀ type, r.kind? type = some .object → (r.parentChain type).getLast? = some objectType
  /-- The ancestry is that walk and interfaces behind it, each type once. -/
  ancestry : ∀ type, (r.ancestry type).Nodup ∧ ∃ implemented,
    r.ancestry type = r.parentChain type ++ implemented ∧
      ∀ interface ∈ implemented, r.kind? interface = some .interface
  isA_refl : ∀ a, r.isA a a = true
  isA_trans : ∀ a b c, r.isA a b = true → r.isA b c = true → r.isA a c = true
  isA_antisymm : ∀ a b, r.isA a b = true → r.isA b a = true → a = b

theorem Sound.lawful {r : Registry} (h : r.Sound) : r.Lawful where
  named type name hname := by
    obtain ⟨info, hinfo, rfl⟩ := Option.map_eq_some_iff.mp hname
    cases type with
    | null => cases hinfo
    | registered index => exact h.named info (List.mem_of_getElem? hinfo)
  unique a b name ha hb := by
    rw [h.typeName?_eq_some] at ha hb
    exact Option.some.inj (ha.symm.trans hb)
  inverse _ _ := h.typeName?_eq_some
  derived type hkind hobject := by
    cases hparent : r.parent? type with
    | none =>
        -- the walk from a class without a parent ends at once, and in `Object`
        have hlast := h.getLast?_parentChain hkind
        rw [parentChain_root hparent] at hlast
        exact absurd (Option.some.inj hlast) hobject
    | some parent =>
        obtain ⟨index, i, htype, rfl, hlt, -, hbase, hfinal⟩ := h.parent?_eq_some hparent
        exact ⟨index, i, htype, rfl, hlt, hbase, hfinal⟩
  implements _ _ := h.kind?_of_mem_interfaces
  members type members hmembers := by
    unfold enumMembers? at hmembers
    split at hmembers
    · next info hinfo =>
        split at hmembers
        · next hkind =>
            cases hmembers
            cases type with
            | null => cases hinfo
            | registered index => exact h.members info (List.mem_of_getElem? hinfo) hkind
        · cases hmembers
    · cases hmembers
  ascends := h.ascends
  toObject _ := h.getLast?_parentChain
  ancestry type := ⟨h.nodup_ancestry type, h.ancestry_eq type⟩
  isA_refl := r.isA_self
  isA_trans _ _ _ := h.isA_trans
  isA_antisymm _ _ := h.isA_antisymm

end Registry

/-! ## Declarations -/

/-- A call that asks for a type. -/
inductive Declaration (β : Type) where
  | enumeration (name : String) (members : List EnumMember)
  | interface (name : String)
  | registration (c : ClassRegistration)
  | builder (b : ClassBuilder β)

/-- The command that makes the call. -/
def Declaration.command : Declaration β → Command β
  | .enumeration name members => .registerEnum name members
  | .interface name => .registerInterface name
  | .registration c => .registerClass c
  | .builder b => .finalize b

/-- A call that failed and changed nothing, or that added a type to the registry. -/
def Progress.Declares (p : Progress β) (w : World β) : Prop :=
  (∃ error, p = .reply w (.failed error)) ∨
    ∃ registry type reply, p = .reply { w with registry } reply ∧
      w.registry.Adds (registry, type) ∧ ∀ error, reply ≠ .failed error

namespace World

/-- The world after a call, whether it succeeds or fails. -/
def declare (w : World β) (call : Declaration β) : World β :=
  (w.perform call.command).world

/-- The world after a sequence of calls. -/
def declareAll (w : World β) (calls : List (Declaration β)) : World β :=
  calls.foldl declare w

theorem declares_registered {w : World β} {result : Except RegistrationError (Registry × TypeHandle)}
    (h : ∀ added, result = .ok added → w.registry.Adds added) :
    (w.registered result).Declares w := by
  cases result with
  | error e => exact .inl ⟨_, rfl⟩
  | ok added => exact .inr ⟨_, _, .done, rfl, h _ rfl, fun _ => nofun⟩

theorem declares_perform (w : World β) (call : Declaration β) :
    (w.perform call.command).Declares w := by
  cases call with
  | enumeration name members => exact declares_registered fun _ => Registry.adds_of_registerEnum
  | interface name => exact declares_registered fun _ => Registry.adds_of_registerInterface
  | registration c => exact declares_registered fun _ => Registry.adds_of_registerClass
  | builder b =>
      show (w.finalize b).Declares w
      unfold finalize
      cases hfinalize : b.finalize w.registry with
      | error e => exact .inl ⟨_, rfl⟩
      | ok added =>
          obtain ⟨registered, hregister, h⟩ := bind_eq_ok.mp hfinalize
          cases h
          exact .inr ⟨_, _, .ofClass _, rfl,
            Registry.adds_of_registerClass (mapError_eq_ok.mp hregister), fun _ => nofun⟩

/-- **A failing call changes nothing.** -/
theorem declare_of_failed {w : World β} {call : Declaration β} {error : Error}
    (h : (w.perform call.command).control = .deliver (.failed error)) : w.declare call = w := by
  unfold declare
  rcases w.declares_perform call with ⟨e, hcall⟩ | ⟨registry, type, reply, hcall, -, hreply⟩
  · rw [hcall]
    rfl
  · rw [hcall] at h
    exact absurd (Control.deliver.inj h) (hreply error)

theorem sound_declare {w : World β} (h : w.registry.Sound) (call : Declaration β) :
    (w.declare call).registry.Sound ∧ w.registry.types <+: (w.declare call).registry.types := by
  unfold declare
  rcases w.declares_perform call with ⟨e, hcall⟩ | ⟨registry, type, reply, hcall, hadds, -⟩
  · rw [hcall]
    exact ⟨h, List.prefix_rfl⟩
  · rw [hcall]
    refine ⟨h.adds hadds, ?_⟩
    obtain ⟨info, -, heq⟩ := hadds
    cases heq
    exact Registry.prefix_push _ _

/-- The registry stays sound and only grows. -/
theorem sound_declareAll {w : World β} (h : w.registry.Sound) (calls : List (Declaration β)) :
    (w.declareAll calls).registry.Sound ∧
      w.registry.types <+: (w.declareAll calls).registry.types := by
  unfold declareAll
  induction calls generalizing w with
  | nil => exact ⟨h, List.prefix_rfl⟩
  | cons call calls ih =>
      obtain ⟨hsound, hgrown⟩ := sound_declare h call
      exact ⟨(ih hsound).1, hgrown.trans (ih hsound).2⟩

/-- A class knows the ancestry that the registry has for it from the moment it is registered. -/
theorem ancestry_of_finalize {w : World β} {b : ClassBuilder β} {c : Class β}
    (h : (w.perform (.finalize b)).control = .deliver (.ofClass c)) :
    c.own.ancestry = (w.declare (.builder b)).registry.ancestry c.handle ∧
      ((w.declare (.builder b)).registry.info? c.handle).isSome := by
  have hworld : (w.declare (.builder b)) = (w.finalize b).world := rfl
  have hcontrol : (w.finalize b).control = .deliver (.ofClass c) := h
  unfold finalize at hworld hcontrol
  cases hfinalize : b.finalize w.registry with
  | error e =>
      rw [hfinalize] at hcontrol
      cases hcontrol
  | ok added =>
      obtain ⟨registered, hregister, hclass⟩ := bind_eq_ok.mp hfinalize
      obtain ⟨info, -, hpush⟩ := Registry.adds_of_registerClass (mapError_eq_ok.mp hregister)
      rw [hfinalize] at hworld hcontrol
      cases hclass
      cases hcontrol
      rw [hworld]
      refine ⟨rfl, ?_⟩
      show (registered.1.info? registered.2).isSome = true
      rw [hpush]
      show ((w.registry.types ++ [info])[w.registry.types.length]?).isSome = true
      rw [List.getElem?_concat_length]
      rfl

end World

/-- **The registry keeps its laws** whatever is declared, and however often that fails: after any
calls the registry is lawful, a call that fails changes nothing, later calls leave the types that
exist with the ancestors that they have, and a declared class agrees with the registry about its
types from then on. -/
theorem declarations_keep_registry_lawful (calls : List (Declaration β)) :
    let w : World β := World.declareAll {} calls
    w.registry.Lawful ∧
      (∀ call error, (w.perform call.command).control = .deliver (.failed error) →
        w.declare call = w) ∧
      (∀ later type ancestor, (w.registry.info? type).isSome →
        (w.declareAll later).registry.isA type ancestor = w.registry.isA type ancestor) ∧
      ∀ b c, (w.perform (.finalize b)).control = .deliver (.ofClass c) →
        ∀ later type, c.isA type =
          ((w.declare (.builder b)).declareAll later).registry.isA c.handle type := by
  intro w
  have hsound : w.registry.Sound := (World.sound_declareAll Registry.sound_builtin calls).1
  refine ⟨hsound.lawful, fun _ _ => World.declare_of_failed, ?_, ?_⟩
  · intro later type ancestor hknown
    obtain ⟨hlater, hgrown⟩ := World.sound_declareAll hsound later
    unfold Registry.isA
    rw [hsound.ancestry_grown hlater hgrown hknown]
  · intro b c hc later type
    obtain ⟨hancestry, hknown⟩ := World.ancestry_of_finalize hc
    have hdeclared := (World.sound_declare hsound (.builder b)).1
    obtain ⟨hlater, hgrown⟩ := World.sound_declareAll hdeclared later
    unfold Class.isA Registry.isA
    rw [hancestry, hdeclared.ancestry_grown hlater hgrown hknown]

/-- The second interface and the enumeration without members are refused. -/
example : (World.declareAll ({} : World Nat)
    [.interface "Plays", .interface "Plays", .enumeration "Mode" []]).registry.size = 5 := by
  decide

end ObjectSystem
