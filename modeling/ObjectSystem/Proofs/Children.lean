import ObjectSystem.Proofs.Milestones
import ObjectSystem.Proofs.Redeclarations

/-!
# Declared children

The names of children are gathered twice: a builder that is finalized keeps each of its names once
(`ClassBuilder.childNames`), and a class that is asked for its children goes through the levels of
its chain and keeps each name once more (`Class.internalChildren`). Whether a name is declared is
asked of the levels one by one (`Class.declaresChild`). All that is known of the three comes from one
fact: gathering the names of a chain is gathering, once, all that was declared in it, the root's
declarations first (`Class.Stems.internalChildren_eq`). So the names that are gathered first come
first (`Class.pairwise_appendNewNames`), and

* the list of a class has every declared name once, in the order of declaration
  (`ChildDeclaration.lists_appendNewNames`);
* the registry was told the names of the class alone, in the same order;
* a construction accepts exactly the children in the list, and so does a lookup on the instance.

An abstract class has no instances: a construction of it fails before its children are looked at
(`abstract_before_children`).
-/

namespace ObjectSystem

variable {σ β κ : Type}

/-! ## Names, each once -/

namespace Class

theorem appendNewNames_append (known first second : List String) :
    appendNewNames known (first ++ second) = appendNewNames (appendNewNames known first) second :=
  List.foldl_append

theorem mem_appendNewNames {known names : List String} {name : String} :
    name ∈ appendNewNames known names ↔ name ∈ known ∨ name ∈ names := by
  unfold appendNewNames
  induction names generalizing known with
  | nil => simp
  | cons first names ih =>
    rw [List.foldl_cons, ih, List.mem_cons]
    split
    · next hfirst => exact ⟨Or.imp_right .inr, fun h => by grind⟩
    · rw [List.mem_append, List.mem_singleton, or_assoc]

theorem mem_appendNewNames_nil {names : List String} {name : String} :
    name ∈ appendNewNames [] names ↔ name ∈ names := by
  rw [mem_appendNewNames, or_iff_right List.not_mem_nil]

/-- A name is added if it is new. -/
theorem appendNewNames_concat (known names : List String) (name : String) :
    appendNewNames known (names ++ [name]) =
      if name ∈ appendNewNames known names then appendNewNames known names
      else appendNewNames known names ++ [name] :=
  appendNewNames_append known names [name]

/-- It makes no difference if names were reduced to one occurrence each before. -/
theorem appendNewNames_once (known names : List String) :
    appendNewNames known (appendNewNames [] names) = appendNewNames known names := by
  induction names using List.reverseRecOn with
  | nil => rfl
  | append_singleton names name ih =>
    rw [appendNewNames_concat [], appendNewNames_concat known names]
    split
    · next hold =>
      rw [if_pos (mem_appendNewNames.mpr (.inr (mem_appendNewNames_nil.mp hold))), ih]
    · rw [appendNewNames_concat, ih]

/-- **The names come in the order of their first occurrences.** -/
theorem pairwise_appendNewNames (names : List String) :
    (appendNewNames [] names).Pairwise fun a b => names.idxOf a < names.idxOf b := by
  induction names using List.reverseRecOn with
  | nil => exact .nil
  | append_singleton names name ih =>
    have hold : (appendNewNames [] names).Pairwise fun a b =>
        (names ++ [name]).idxOf a < (names ++ [name]).idxOf b := by
      refine ih.imp_of_mem fun ha hb hlt => ?_
      rwa [List.idxOf_append_of_mem (mem_appendNewNames_nil.mp ha),
        List.idxOf_append_of_mem (mem_appendNewNames_nil.mp hb)]
    rw [appendNewNames_concat]
    split
    · exact hold
    · next hnew =>
      refine List.pairwise_append.mpr ⟨hold, List.pairwise_singleton _ _, fun a ha b hb => ?_⟩
      replace ha := mem_appendNewNames_nil.mp ha
      rw [mem_appendNewNames_nil] at hnew
      rw [List.mem_singleton.mp hb, List.idxOf_append_of_mem ha, List.idxOf_append_of_notMem hnew]
      exact Nat.lt_of_lt_of_le (List.idxOf_lt_length_iff.mpr ha) (Nat.le_add_right _ _)

theorem appendNewNames_flatten_once (known : List String) (lists : List (List String)) :
    appendNewNames known (lists.map (appendNewNames [])).flatten =
      appendNewNames known lists.flatten := by
  induction lists generalizing known with
  | nil => rfl
  | cons names lists ih =>
    rw [List.map_cons, List.flatten_cons, List.flatten_cons, appendNewNames_append,
      appendNewNames_append, appendNewNames_once, ih]

/-- What the levels of a class have, the root's first. -/
theorem internalChildren_eq_flatMap (c : Class β) :
    c.internalChildren = appendNewNames [] (c.rootFirst.flatMap (·.children)) := by
  unfold internalChildren
  generalize ([] : List String) = known
  induction c.rootFirst generalizing known with
  | nil => rfl
  | cons level levels ih =>
    rw [List.foldl_cons, ih, List.flatMap_cons, appendNewNames_append]

/-- **A name is declared exactly if it is listed.** -/
theorem declaresChild_iff (c : Class β) (name : String) :
    c.declaresChild name = true ↔ name ∈ c.internalChildren := by
  rw [internalChildren_eq_flatMap, mem_appendNewNames_nil, declaresChild, List.any_eq_true,
    List.mem_flatMap]
  simp only [decide_eq_true_eq, rootFirst, List.mem_reverse]

end Class

/-! ## The order of declared names -/

/-- What the classes of a chain declare, the root's names first. -/
abbrev Declared := List (List String)

namespace Declared

/-- The class nearest to the root that declares a name, by its position. -/
def founder (lists : Declared) (name : String) : Nat :=
  lists.findIdx (name ∈ ·)

/-- Where a class has a name first. -/
def place (lists : Declared) (name : String) : Nat :=
  (lists.find? (name ∈ ·)).elim 0 (·.idxOf name)

/-- The order of names: by the class nearest to the root that declares them, and within a class by
first occurrence. -/
def Precedes (lists : Declared) (a b : String) : Prop :=
  lists.founder a < lists.founder b ∨
    lists.founder a = lists.founder b ∧ lists.place a < lists.place b

theorem founder_cons (names : List String) (lists : Declared) (name : String) :
    founder (names :: lists) name = if name ∈ names then 0 else founder lists name + 1 := by
  unfold founder
  rw [List.findIdx_cons]
  split <;> simp_all

theorem place_cons (names : List String) (lists : Declared) (name : String) :
    place (names :: lists) name = if name ∈ names then names.idxOf name else place lists name := by
  unfold place
  rw [List.find?_cons]
  split <;> simp_all

/-- It is the order in which the names occur if the lists are read one after the other. -/
theorem precedes_of_idxOf_lt {lists : Declared} {a b : String} (ha : a ∈ lists.flatten)
    (hb : b ∈ lists.flatten) (hlt : lists.flatten.idxOf a < lists.flatten.idxOf b) :
    lists.Precedes a b := by
  induction lists with
  | nil => cases ha
  | cons names lists ih =>
    unfold Precedes
    rw [founder_cons, founder_cons, place_cons, place_cons]
    rw [List.flatten_cons, List.idxOf_append, List.idxOf_append] at hlt
    rw [List.flatten_cons, List.mem_append] at ha hb
    by_cases hafirst : a ∈ names
    · rw [if_pos hafirst] at hlt ⊢
      rw [if_pos hafirst]
      by_cases hbfirst : b ∈ names
      · rw [if_pos hbfirst] at hlt ⊢
        rw [if_pos hbfirst]
        exact .inr ⟨rfl, hlt⟩
      · rw [if_neg hbfirst]
        exact .inl (Nat.succ_pos _)
    · rw [if_neg hafirst] at hlt ⊢
      rw [if_neg hafirst]
      by_cases hbfirst : b ∈ names
      · -- what the first list has comes before all else
        rw [if_pos hbfirst] at hlt
        have := List.idxOf_lt_length_iff.mpr hbfirst
        omega
      · rw [if_neg hbfirst] at hlt ⊢
        rw [if_neg hbfirst]
        have hlater := ih (ha.resolve_left hafirst) (hb.resolve_left hbfirst) (by omega)
        exact hlater.imp Nat.succ_lt_succ (And.imp_left (congrArg Nat.succ))

end Declared

/-! ## Histories -/

/-- One declaration of children. -/
inductive ChildDeclaration where
  /-- A child with an accessor. -/
  | child (name : String)
  /-- Children without accessors. -/
  | internal (names : List String)

namespace ChildDeclaration

/-- The names that are declared. -/
def names : ChildDeclaration → List String
  | child name => [name]
  | internal names => names

def hasAccessor : ChildDeclaration → Bool
  | child _ => true
  | internal _ => false

/-- All names that a class declares, those with accessors first. -/
def namesOf (ds : List ChildDeclaration) : List String :=
  (ds.filter (·.hasAccessor)).flatMap names ++ (ds.filter (!·.hasAccessor)).flatMap names

theorem mem_namesOf {ds : List ChildDeclaration} {name : String} :
    name ∈ namesOf ds ↔ ∃ d ∈ ds, name ∈ d.names := by
  simp only [namesOf, List.mem_append, List.mem_flatMap, List.mem_filter]
  constructor
  · rintro (⟨d, ⟨hd, -⟩, hname⟩ | ⟨d, ⟨hd, -⟩, hname⟩) <;> exact ⟨d, hd, hname⟩
  · rintro ⟨d, hd, hname⟩
    cases hkind : d.hasAccessor with
    | true => exact .inl ⟨d, ⟨hd, hkind⟩, hname⟩
    | false => exact .inr ⟨d, ⟨hd, by rw [hkind]; rfl⟩, hname⟩

/-- A list that has each name which a chain of classes declares once, in the order of declaration. -/
structure Lists (chain : List (List ChildDeclaration)) (listed : List String) : Prop where
  nodup : listed.Nodup
  mem : ∀ name, name ∈ listed ↔ ∃ ds ∈ chain, ∃ d ∈ ds, name ∈ d.names
  order : listed.Pairwise (Declared.Precedes (chain.map namesOf))

/-- Gathering the names, each once, yields such a list. -/
theorem lists_appendNewNames (chain : List (List ChildDeclaration)) :
    Lists chain (Class.appendNewNames [] (chain.map namesOf).flatten) := by
  have hpairwise := Class.pairwise_appendNewNames (chain.map namesOf).flatten
  refine ⟨hpairwise.imp fun hlt heq => ?_, fun name => ?_, ?_⟩
  · exact Nat.ne_of_lt hlt (congrArg (chain.map namesOf).flatten.idxOf heq)
  · simp only [Class.mem_appendNewNames_nil, ← List.flatMap_def, List.mem_flatMap, mem_namesOf]
  · exact hpairwise.imp_of_mem fun ha hb => Declared.precedes_of_idxOf_lt
      (Class.mem_appendNewNames_nil.mp ha) (Class.mem_appendNewNames_nil.mp hb)

end ChildDeclaration

open ChildDeclaration

namespace ClassBuilder

/-- The builders that declarations lead to, with the declarations of children among them in order. -/
inductive Bears : List ChildDeclaration → ClassBuilder β → Prop
  /-- A new builder has no children. -/
  | new {b : ClassBuilder β} (hc : b.children = []) (hm : b.manualChildren = []) : Bears [] b
  | child {ds : List ChildDeclaration} {b : ClassBuilder β} (h : Bears ds b) (name : String) :
      Bears (ds ++ [.child name]) (b.child name)
  | internal {ds : List ChildDeclaration} {b : ClassBuilder β} (h : Bears ds b)
      (names : List String) : Bears (ds ++ [.internal names]) (b.internalChildren names)
  /-- Anything else that is declared has nothing to do with children. -/
  | declares {ds : List ChildDeclaration} {b b' : ClassBuilder β} (h : Bears ds b)
      (hc : b'.children = b.children) (hm : b'.manualChildren = b.manualChildren) : Bears ds b'

/-- The two lists of a builder are the two kinds of declarations. -/
theorem Bears.names_eq {ds : List ChildDeclaration} {b : ClassBuilder β} (h : b.Bears ds) :
    b.children = (ds.filter (·.hasAccessor)).flatMap names ∧
      b.manualChildren = (ds.filter (!·.hasAccessor)).flatMap names := by
  induction h with
  | new hc hm => exact ⟨hc, hm⟩
  | child h name ih => simp [ClassBuilder.child, ih, hasAccessor, names]
  | internal h given ih => simp [ClassBuilder.internalChildren, ih, hasAccessor, names]
  | declares h hc hm ih => exact ⟨hc.trans ih.1, hm.trans ih.2⟩

theorem Bears.childNames {ds : List ChildDeclaration} {b : ClassBuilder β} (h : b.Bears ds) :
    b.childNames = Class.appendNewNames [] (namesOf ds) := by
  rw [ClassBuilder.childNames, h.names_eq.1, h.names_eq.2]
  rfl

/-- A finalized builder adds a level with its names to those of its parent. -/
theorem children_of_finalize {b : ClassBuilder β} {r r' : Registry} {c : Class β}
    (h : b.finalize r = .ok (r', c)) :
    c.own.children = b.childNames ∧ c.inherited = b.inheritedLevels := by
  obtain ⟨⟨registry, type⟩, -, h⟩ := bind_eq_ok.mp h
  cases h
  exact ⟨rfl, rfl⟩

end ClassBuilder

/-- The classes that finalizing builders leads to, with what each class of the chain declares, the
root first. -/
inductive Class.Stems : List (List ChildDeclaration) → Class β → Prop
  | root {ds : List ChildDeclaration} {b : ClassBuilder β} (hb : b.Bears ds)
      (hparent : ∀ parent, b.parent ≠ some (.declared parent)) {r r' : Registry} {c : Class β}
      (hc : b.finalize r = .ok (r', c)) : Stems [ds] c
  | derived {chain : List (List ChildDeclaration)} {parent : Class β} (h : Stems chain parent)
      {ds : List ChildDeclaration} {b : ClassBuilder β} (hb : b.Bears ds)
      (hparent : b.parent = some (.declared parent)) {r r' : Registry} {c : Class β}
      (hc : b.finalize r = .ok (r', c)) : Stems (chain ++ [ds]) c

namespace Class

/-- Each level has the names that its class declares, once. -/
theorem Stems.children_eq {chain : List (List ChildDeclaration)} {c : Class β} (h : c.Stems chain) :
    c.rootFirst.map (·.children) = (chain.map namesOf).map (appendNewNames []) := by
  induction h with
  | root hb hparent hc =>
    obtain ⟨hown, hinherited⟩ := ClassBuilder.children_of_finalize hc
    unfold ClassBuilder.inheritedLevels at hinherited
    split at hinherited
    · next parent hp => exact absurd hp (hparent parent)
    · simp [rootFirst, levels, hinherited, hown, hb.childNames]
  | derived h hb hparent hc ih =>
    obtain ⟨hown, hinherited⟩ := ClassBuilder.children_of_finalize hc
    unfold ClassBuilder.inheritedLevels at hinherited
    rw [hparent] at hinherited
    rw [List.map_append, List.map_append, ← ih]
    simp [rootFirst, levels, hinherited, hown, hb.childNames]

/-- **Gathering the names of a chain is gathering, once, all that was declared in it.** -/
theorem Stems.internalChildren_eq {chain : List (List ChildDeclaration)} {c : Class β}
    (h : c.Stems chain) : c.internalChildren = appendNewNames [] (chain.map namesOf).flatten := by
  rw [internalChildren_eq_flatMap, List.flatMap_def, h.children_eq, appendNewNames_flatten_once]

end Class

/-! ## Children of an instance -/

/-- An instance knows the children in the list of its class. -/
theorem Instance.child_eq_error {x : Instance β} {name : String} {e : PropertyError} :
    x.child name = .error e ↔
      name ∉ x.ofClass.internalChildren ∧ e = .unknownChild x.typeName name := by
  rw [← Class.declaresChild_iff]
  unfold Instance.child
  split
  · next h => exact ⟨nofun, fun hnot => absurd h hnot.1⟩
  · next h => exact ⟨fun he => ⟨h, (Except.error.inj he).symm⟩, fun he => he.2 ▸ rfl⟩

namespace Machine

variable {client : Client σ β κ} {m : Machine σ β κ} {con : Construction β}

/-- If all children are declared, a construction replies its instance or that a property was
refused. -/
theorem Reachable.answers_of_declared (hreach : Reachable client m)
    (hm : m.control = .perform (.construct con)) (hclass : con.ofClass.own.flags.isAbstract = false)
    (hchildren : ∀ child ∈ con.children, con.ofClass.declaresChild child.1 = true)
    (hcontext : m.world.context? con.context ≠ none) {reply : Reply β} {k : Nat}
    (h : m.Answers client (.construct con) reply k) :
    reply = .object ⟨m.world.nextInstance⟩ ∨ ∃ e, reply = .failed (.construct (.property e)) := by
  obtain ⟨hadvance, hhouses⟩ := follows_construct hreach hm hclass hchildren
  have hf := follows_of_advance client hadvance
  have hthere : m.world.timetable? con.context ≠ none :=
    fun hnone => hcontext (Option.map_eq_none_iff.mp hnone)
  have hsited : (m.step client).Site client ⟨m.world.nextInstance⟩ con.ofClass con.context :=
    ⟨hreach.step, hhouses, timetable?_step_ne_none client hthere⟩
  have hbegins : (m.step client).milestone client ⟨m.world.nextInstance⟩ con.context = [] := by
    rw [milestone_of_top hreach.step hf.stack rfl fun _ _ => nofun, hf.control]
    rfl
  have hpasses := hsited.constructs (c := con.context) hf.control (fun _ => nofun) hf.stack
  obtain ⟨hanswers, -⟩ := Passes.answers hm (milestone_eq_nil hreach hreach.site?_next)
    (.of_step [] hbegins (length_lt_of_top hf.stack) hpasses)
  rcases (hanswers reply k h).ends with ⟨hmade, -⟩ | ⟨_, _, _, _, e, -, hrefused, -⟩
  · exact .inl hmade
  · exact .inr ⟨e, hrefused⟩

/-- A construction either has declared children only, or one that is the first undeclared one. -/
theorem declared_or_first (con : Construction β) :
    (∀ child ∈ con.children, con.ofClass.declaresChild child.1 = true) ∨
      ∃ known name child others, con.children = known ++ (name, child) :: others ∧
        (∀ child ∈ known, con.ofClass.declaresChild child.1 = true) ∧
        con.ofClass.declaresChild name = false := by
  cases hfirst : con.children.find? (!con.ofClass.declaresChild ·.1) with
  | none =>
    refine .inl fun child hchild => ?_
    simpa using List.find?_eq_none.mp hfirst child hchild
  | some child =>
    obtain ⟨hname, known, others, hsplit, hknown⟩ := List.find?_eq_some_iff_append.mp hfirst
    exact .inr ⟨known, child.1, child.2, others, hsplit, by simpa using hknown, by simpa using hname⟩

/-- **A construction fails with an unknown child exactly at the first child that is not declared.** -/
theorem Reachable.unknownChild_iff (hreach : Reachable client m)
    (hm : m.control = .perform (.construct con)) (hclass : con.ofClass.own.flags.isAbstract = false)
    (hcontext : m.world.context? con.context ≠ none) (typeName name : String) :
    (∃ k, m.Answers client (.construct con)
        (.failed (.construct (.unknownChild typeName name))) k) ↔
      typeName = con.ofClass.typeName ∧ ∃ known child others,
        con.children = known ++ (name, child) :: others ∧
          (∀ child ∈ known, con.ofClass.declaresChild child.1 = true) ∧
          con.ofClass.declaresChild name = false := by
  constructor
  · rintro ⟨k, hk⟩
    rcases declared_or_first con with hall | ⟨known, first, child, others, hsplit, hknown, hfirst⟩
    · rcases hreach.answers_of_declared hm hclass hall hcontext hk with hmade | ⟨e, hrefused⟩
      · cases hmade
      · cases hrefused
    · obtain ⟨-, hends, -⟩ := ends_at_child (c := con.context) hreach hm hclass hsplit hknown hfirst
      obtain ⟨heq, -⟩ := hk.unique hends
      cases heq
      exact ⟨rfl, known, child, others, hsplit, hknown, hfirst⟩
  · rintro ⟨rfl, known, child, others, hsplit, hknown, hname⟩
    exact ⟨2, (ends_at_child (c := con.context) hreach hm hclass hsplit hknown hname).2.1⟩

/-- An instance that was built stays of its class. -/
theorem Reachable.ofClass_of_built (hreach : Reachable client m)
    (hm : m.control = .perform (.construct con)) (hclass : con.ofClass.own.flags.isAbstract = false)
    (hcontext : m.world.context? con.context ≠ none) {i : InstanceId} {k n : Nat}
    (hmade : m.Answers client (.construct con) (.object i) k) (hkn : k ≤ n) {x : Instance β}
    (hx : (m.after client n).world.instance? i = some x) : x.ofClass = con.ofClass := by
  rcases declared_or_first con with hall | ⟨known, first, child, others, hsplit, hknown, hfirst⟩
  · obtain rfl : i = ⟨m.world.nextInstance⟩ := by
      rcases hreach.answers_of_declared hm hclass hall hcontext hmade with hi | ⟨e, hrefused⟩
      · cases hi
        rfl
      · cases hrefused
    obtain ⟨-, hhouses⟩ := follows_construct hreach hm hclass hall
    obtain ⟨y, hy, -⟩ := hhouses
    have hgiven : m.world.nextInstance < (m.step client).world.nextInstance :=
      hreach.step.tracked.created _ y.duties (World.duties?_eq hy)
    have hages := ages_after client m (Nat.le_trans hmade.pos hkn)
    obtain ⟨x', hx', hof, -⟩ := (follows_construct hreach hm hclass hall).2.of_ages hages hgiven
      (by rw [World.values?_eq hx]; exact Option.some_ne_none _)
    cases hx.symm.trans hx'
    exact hof
  · obtain ⟨-, hends, -⟩ := ends_at_child (c := con.context) hreach hm hclass hsplit hknown hfirst
    obtain ⟨heq, -⟩ := hmade.unique hends
    cases heq

end Machine

/-! ## The law -/

/-- **Children are collected once and consistently.** In a chain of classes in which each class
declares children one by one and in groups, with repetitions within and across classes, the list of
children has each name that some class declares once: names come in the order of the classes nearest
to the root that declare them, and within a class by first occurrence, those with accessors first.
The registry was told the names of the class itself, each once and in the same order. A construction
of an abstract class fails with that, whatever its children. Unless the class is abstract, binding
children makes a construction fail with an unknown child exactly if one of them is not in the list,
and the first such child is the one in the error. On a built instance a child cannot be looked up
exactly if it is not in the list. -/
theorem children_collected_once {chain : List (List ChildDeclaration)} {c : Class β}
    (h : c.Stems chain) :
    Lists chain c.internalChildren ∧
    (∀ ds (b : ClassBuilder β) r r', b.Bears ds → b.finalize r = .ok (r', c) →
      ∃ registration, r'.registration? c.handle = some registration ∧
        Lists [ds] registration.internalChildren) ∧
    (∀ (client : Client σ β κ) (m : Machine σ β κ) (con : Construction β),
      Machine.Reachable client m → m.control = .perform (.construct con) →
      con.ofClass = c → c.own.flags.isAbstract = true →
      m.Answers client (.construct con) (.failed (.construct (.isAbstract c.typeName))) 1) ∧
    ∀ (client : Client σ β κ) (m : Machine σ β κ) (con : Construction β),
      Machine.Reachable client m → m.control = .perform (.construct con) →
      m.world.context? con.context ≠ none → con.ofClass = c → c.own.flags.isAbstract = false →
      ((∃ typeName name k, m.Answers client (.construct con)
          (.failed (.construct (.unknownChild typeName name))) k) ↔
        ∃ child ∈ con.children, child.1 ∉ c.internalChildren) ∧
      (∀ typeName name, (∃ k, m.Answers client (.construct con)
          (.failed (.construct (.unknownChild typeName name))) k) ↔
        typeName = c.typeName ∧ ∃ known child others,
          con.children = known ++ (name, child) :: others ∧
            (∀ child ∈ known, child.1 ∈ c.internalChildren) ∧ name ∉ c.internalChildren) ∧
      ∀ i k n x, m.Answers client (.construct con) (.object i) k → k ≤ n →
        (m.after client n).world.instance? i = some x →
        ∀ name e, x.child name = .error e ↔
          name ∉ c.internalChildren ∧ e = .unknownChild c.typeName name := by
  refine ⟨h.internalChildren_eq ▸ lists_appendNewNames chain, fun ds b r r' hb hc => ?_, ?_, ?_⟩
  · refine ⟨_, ClassBuilder.registration?_of_finalize hc, ?_⟩
    have hlists := lists_appendNewNames [ds]
    rwa [List.map_singleton, List.flatten_singleton, ← hb.childNames] at hlists
  · rintro client m con hreach hm rfl hclass
    exact (Machine.fails_of_abstract hreach hm hclass).1
  · rintro client m con hreach hm hcontext rfl hclass
    have hfails := hreach.unknownChild_iff hm hclass hcontext
    refine ⟨⟨?_, ?_⟩, fun typeName name => ?_, ?_⟩
    · rintro ⟨typeName, name, hanswers⟩
      obtain ⟨-, known, child, others, hsplit, -, hname⟩ := (hfails typeName name).mp hanswers
      refine ⟨(name, child), hsplit ▸ List.mem_append_right _ List.mem_cons_self, ?_⟩
      rw [← Class.declaresChild_iff, hname]
      exact Bool.false_ne_true
    · rintro ⟨child, hchild, hunknown⟩
      rcases Machine.declared_or_first con with hall | ⟨known, name, first, others, hfirst⟩
      · exact absurd ((Class.declaresChild_iff _ _).mp (hall child hchild)) hunknown
      · exact ⟨_, name, (hfails _ name).mpr ⟨rfl, known, first, others, hfirst⟩⟩
    · rw [hfails]
      simp only [← Class.declaresChild_iff, Bool.not_eq_true]
    · intro i k n x hmade hkn hx name e
      have hof := hreach.ofClass_of_built hm hclass hcontext hmade hkn hx
      rw [Instance.child_eq_error, hof]
      unfold Instance.typeName
      rw [hof]

/-! ## A run -/

/-- Trees declare three children, one of them twice. -/
def tree : ClassBuilder Nat :=
  ((({ className := "Tree" : ClassBuilder Nat }.child "a").internalChildren ["b", "a"]).child "c")

/-- Oaks declare some children of trees again. -/
def oakUnder (parent : Class Nat) : ClassBuilder Nat :=
  ({ className := "Oak", parent := some (.declared parent) : ClassBuilder Nat }.child
    "c").internalChildren ["d", "d", "a"]

def oak : Except ClassError (Registry × Class Nat) := do
  let (r, parent) ← tree.finalize .builtin
  (oakUnder parent).finalize r

def oakClass : Class Nat :=
  match oak with
  | .ok (_, c) => c
  | .error _ => .simple .empty [] none

/-- What trees and oaks declare. -/
def oakChain : List (List ChildDeclaration) :=
  [[.child "a", .internal ["b", "a"], .child "c"], [.child "c", .internal ["d", "d", "a"]]]

theorem tree_bears : tree.Bears [.child "a", .internal ["b", "a"], .child "c"] :=
  (((ClassBuilder.Bears.new rfl rfl).child "a").internal ["b", "a"]).child "c"

theorem oakUnder_bears (parent : Class Nat) :
    (oakUnder parent).Bears [.child "c", .internal ["d", "d", "a"]] :=
  ((ClassBuilder.Bears.new rfl rfl).child "c").internal ["d", "d", "a"]

theorem oak_eq_ok : ∃ r parent r', tree.finalize .builtin = .ok (r, parent) ∧
    (oakUnder parent).finalize r = .ok (r', oakClass) := by
  unfold oakClass
  split
  · next r' c hc =>
    obtain ⟨⟨r, parent⟩, hparent, hc⟩ := bind_eq_ok.mp hc
    exact ⟨r, parent, r', hparent, hc⟩
  · next e he =>
    have hok : oak.isOk = true := by decide +kernel
    rw [he] at hok
    cases hok

theorem oakClass_stems : oakClass.Stems oakChain := by
  obtain ⟨r, parent, r', hparent, hc⟩ := oak_eq_ok
  exact .derived (.root tree_bears (fun _ => nofun) hparent) (oakUnder_bears parent) rfl hc

/-- An oak with children that it inherits and declares. -/
def oakPlan : Construction Nat :=
  { ofClass := oakClass, context := ⟨0⟩, children := [("b", ⟨1⟩), ("d", ⟨1⟩)] }

/-- An oak with a child that no class of the chain declares. -/
def graftedPlan : Construction Nat :=
  { ofClass := oakClass, context := ⟨0⟩, children := [("c", ⟨1⟩), ("e", ⟨1⟩)] }

/-- An abstract class without children. -/
def myth : ClassBuilder Nat :=
  { className := "Myth", flags := { isAbstract := true } }

def mythClass : Class Nat :=
  match myth.finalize .builtin with
  | .ok (_, c) => c
  | .error _ => .simple .empty [] none

def mythPlan : Construction Nat :=
  { ofClass := mythClass, context := ⟨0⟩, children := [("e", ⟨1⟩)] }

/-- A program that makes an instance to be a child, and then tries to make instances that have it. -/
def gardener : Client Unit Nat (Routine Nat) :=
  .ofRoutines
    (fun
      | 0 => { acts := [.command (.newContext { clock := .manual }),
          .command (.construct { ofClass := .simple .empty [] none, context := ⟨0⟩ }),
          .command (.construct mythPlan), .command (.construct oakPlan),
          .command (.construct graftedPlan)] }
      | _ => {})
    [.object ⟨1⟩, .object ⟨2⟩]

/-- A state of the run of `gardener`. -/
def gardenerAfter (n : Nat) : Machine Unit Nat (Routine Nat) :=
  (Machine.initial () 0).after gardener n

set_option maxRecDepth 100000 in
theorem gardener_makes :
    (gardenerAfter 10).Answers gardener (.construct oakPlan) (.object ⟨2⟩) 3 := by
  have hm : (gardenerAfter 10).control = .perform (.construct oakPlan) := by rfl
  have hbusy : ∀ i, i < 3 → 0 < i →
      (gardenerAfter 10).stack.length < ((gardenerAfter 10).after gardener i).stack.length := by
    decide +kernel
  refine .of_perform hm (fun i hpos hi => hbusy i hi hpos) ?_ ?_
  · decide +kernel
  · exact Control.eq_of_made? (by decide +kernel)

set_option maxRecDepth 100000 in
/-- An oak has four children, of which it declares three itself; it has no others. -/
theorem children_collected_once_gardener :
    Lists oakChain ["a", "c", "b", "d"] ∧
      (∃ (r : Registry) (registration : ClassRegistration),
        r.registration? oakClass.handle = some registration ∧
        Lists [[.child "c", .internal ["d", "d", "a"]]] registration.internalChildren) ∧
      (∃ k, (gardenerAfter 14).Answers gardener (.construct graftedPlan)
        (.failed (.construct (.unknownChild "Oak" "e"))) k) ∧
      ∃ x, (gardenerAfter 14).world.instance? ⟨2⟩ = some x ∧
        x.child "e" = .error (.unknownChild "Oak" "e") ∧ ∀ e, x.child "b" ≠ .error e := by
  obtain ⟨hlists, hregistered, -, hbuilds⟩ := children_collected_once oakClass_stems
  have hlisted : oakClass.internalChildren = ["a", "c", "b", "d"] := by decide +kernel
  have hname : oakClass.typeName = "Oak" := by decide +kernel
  have hconcrete : oakClass.own.flags.isAbstract = false := by decide +kernel
  have hthere (n : Nat) (h : ((gardenerAfter n).world.context? ⟨0⟩).isSome = true) :
      (gardenerAfter n).world.context? ⟨0⟩ ≠ none := Option.isSome_iff_ne_none.mp h
  have hreach (n : Nat) : Machine.Reachable gardener (gardenerAfter n) :=
    (Machine.Reachable.initial () 0).after n
  refine ⟨hlisted ▸ hlists, ?_, ?_, ?_⟩
  · obtain ⟨r, parent, r', -, hc⟩ := oak_eq_ok
    obtain ⟨registration, hregistration⟩ := hregistered _ _ r r' (oakUnder_bears parent) hc
    exact ⟨r', registration, hregistration⟩
  · obtain ⟨-, hfails, -⟩ := hbuilds gardener (gardenerAfter 14) graftedPlan (hreach 14) (by rfl)
      (hthere 14 (by decide +kernel)) rfl hconcrete
    refine (hfails "Oak" "e").mpr ⟨hname.symm, [("c", ⟨1⟩)], ⟨1⟩, [], rfl, ?_, ?_⟩ <;> rw [hlisted] <;>
      decide
  · obtain ⟨x, hx⟩ : ∃ x, (gardenerAfter 14).world.instance? ⟨2⟩ = some x :=
      Option.isSome_iff_exists.mp (by decide +kernel)
    obtain ⟨-, -, hlookup⟩ := hbuilds gardener (gardenerAfter 10) oakPlan (hreach 10) (by rfl)
      (hthere 10 (by decide +kernel)) rfl hconcrete
    have hchild := hlookup ⟨2⟩ 3 4 x gardener_makes (by decide) hx
    rw [hlisted, hname] at hchild
    exact ⟨x, hx, (hchild "e" _).mpr ⟨by decide, rfl⟩, fun e he => ((hchild "b" e).mp he).1 (by decide)⟩

set_option maxRecDepth 100000 in
/-- A construction of an abstract class fails before its children are looked at: an undeclared one is
not what it fails with. -/
theorem abstract_before_children :
    (gardenerAfter 8).control = .perform (.construct mythPlan) ∧
      (∃ child ∈ mythPlan.children, child.1 ∉ mythPlan.ofClass.internalChildren) ∧
      (∃ k, (gardenerAfter 8).Answers gardener (.construct mythPlan)
        (.failed (.construct (.isAbstract "Myth"))) k) ∧
      ¬∃ typeName name k, (gardenerAfter 8).Answers gardener (.construct mythPlan)
        (.failed (.construct (.unknownChild typeName name))) k := by
  have hm : (gardenerAfter 8).control = .perform (.construct mythPlan) := by rfl
  have hname : mythClass.typeName = "Myth" := by decide +kernel
  have hnone : mythClass.internalChildren = [] := by decide +kernel
  have habstract : mythPlan.ofClass.own.flags.isAbstract = true := by decide +kernel
  have hreach : Machine.Reachable gardener (gardenerAfter 8) :=
    (Machine.Reachable.initial () 0).after 8
  obtain ⟨hfails, -⟩ := Machine.fails_of_abstract hreach hm habstract
  refine ⟨hm, ⟨("e", ⟨1⟩), List.mem_cons_self, ?_⟩, ⟨1, hname ▸ hfails⟩, ?_⟩
  · show "e" ∉ mythClass.internalChildren
    rw [hnone]
    exact List.not_mem_nil
  · rintro ⟨typeName, name, k, hk⟩
    obtain ⟨heq, -⟩ := hfails.unique hk
    cases heq

end ObjectSystem
