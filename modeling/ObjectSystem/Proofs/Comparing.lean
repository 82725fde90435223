import ObjectSystem.Proofs.Holding
import ObjectSystem.Proofs.Reports
import ObjectSystem.Proofs.Spellings

/-!
# Structural comparison of written values

A stored property that compares objects structurally asks whether the old and the new one have the
same stored values. It asks when the new value is already stored (`World.storeValue`). This is told
in three stages:

* stored values are kept sorted in every state (`Machine.Reachable.sorted`), so that two instances
  have pairwise identical values exactly if they agree on each name (`World.sameStored_iff`);
* what a write does to a comparison: nothing, unless the written instance is one of the two that are
  compared and agrees with the other one on everything else (`World.judgement_changes_iff`);
* so a change is reported exactly if the two differ after the write, and this is not whether they
  differed before it if the other instance refers, by the same property, to one of the two
  (`structural_writes_compare_later`).
-/

namespace ObjectSystem

variable {σ β κ : Type}

/-! ## Sorted values -/

namespace World

/-- Every instance keeps its stored values sorted. -/
def Sorted (w : World β) : Prop :=
  ∀ i c stored, w.values? i = some (c, stored) → stored.Sorted

theorem Sorted.of_values {w v : World β} (h : w.Sorted) (hv : ∀ i, v.values? i = w.values? i) :
    v.Sorted :=
  fun i c stored hstored => h i c stored ((hv i).symm.trans hstored)

theorem Sorted.addInstance {w : World β} (h : w.Sorted) (ofClass : Class β) (context : ContextId) :
    (w.addInstance ofClass context).1.Sorted := by
  intro i c stored hstored
  rw [values?_addInstance] at hstored
  rcases Option.or_eq_some_iff.mp hstored with hold | ⟨-, hnew⟩
  · exact h i c stored hold
  · split at hnew
    · cases hnew
      exact NameTable.sorted_empty
    · cases hnew

theorem Sorted.store {w : World β} (h : w.Sorted) {i : InstanceId} {x : Instance β}
    (hx : w.instance? i = some x) (name : String) (value : Value) :
    (w.modifyInstance i (·.store name value)).Sorted := by
  intro j c stored hstored
  rw [values?_store hx] at hstored
  split at hstored
  · cases hstored
    exact (h i _ _ (values?_eq hx)).insert name value
  · exact h j c stored hstored

end World

/-- A move keeps stored values sorted. -/
theorem Deal.sorted {m m' : Machine σ β κ} (h : Deal m m') (hw : m.world.Sorted) :
    m'.world.Sorted := by
  rcases h.values with hsame | ⟨ofClass, context, hcreated⟩ | ⟨j, x, spec, value, hx, -, hv⟩
  · exact hw.of_values hsame
  · exact (hw.addInstance ofClass context).of_values hcreated
  · rw [hv]
    exact hw.store hx spec.name value

theorem Machine.Reachable.sorted {client : Client σ β κ} {m : Machine σ β κ} (h : m.Reachable client) :
    m.world.Sorted := by
  induction h with
  | initial state callback => exact fun i c stored hstored => (by cases hstored)
  | @step m h ih =>
    intro i c stored hstored
    exact (deal_advance client m).sorted ih i c stored ((sheds_step client m).values hstored)

/-! ## Agreement name by name -/

/-- Whether two entries are both missing or hold identical values. -/
def Value.agree : Option Value → Option Value → Bool
  | none, none => true
  | some a, some b => a.identical b
  | _, _ => false

theorem Value.agree_object_left {i : InstanceId} {entry : Option Value} :
    agree (some (.object (some i))) entry = true ↔ entry = some (.object (some i)) := by
  constructor
  · intro h
    cases entry with
    | none => cases h
    | some v =>
      cases v with
      | object j => rw [eq_of_beq (show (some i == j) = true from h)]
      | _ => cases h
  · rintro rfl
    exact beq_self_eq_true (some i)

theorem Value.agree_object_right {i : InstanceId} {entry : Option Value} :
    agree entry (some (.object (some i))) = true ↔ entry = some (.object (some i)) := by
  constructor
  · intro h
    cases entry with
    | none => cases h
    | some v =>
      cases v with
      | object j => rw [eq_of_beq (show (j == some i) = true from h)]
      | _ => cases h
  · rintro rfl
    exact beq_self_eq_true (some i)

namespace NameTable

/-- In a sorted table no entry is filed under a name that comes before all of its names. -/
theorem lookup_eq_none_of_lt {α : Type} {name : String} {entries : List (String × α)}
    (h : ∀ entry ∈ entries, name < entry.1) : entries.lookup name = none := by
  refine List.lookup_eq_none_iff.mpr fun entry hentry => ?_
  exact bne_iff_ne.mpr fun heq => String.lt_irrefl _ (heq ▸ h entry hentry)

/-- The first name of a sorted table comes before all others that are found. -/
theorem first_le {α : Type} {first name : String} (a : α) {rest : List (String × α)}
    (hrest : ∀ entry ∈ rest, first < entry.1)
    (hfound : ((first, a) :: rest).lookup name ≠ none) : first ≤ name := by
  refine String.not_lt.mp fun hlt => hfound (lookup_eq_none_of_lt ?_)
  exact List.forall_mem_cons.mpr ⟨hlt, fun entry hentry => String.lt_trans hlt (hrest entry hentry)⟩

end NameTable

namespace World

theorem agree_of_sameStored {s t : List (String × Value)} (h : sameStored s t = true)
    (name : String) : Value.agree (s.lookup name) (t.lookup name) = true := by
  fun_induction sameStored s t with
  | case1 => rfl
  | case2 a v rest b w others ih =>
    simp only [Bool.and_eq_true, beq_iff_eq] at h
    obtain ⟨⟨rfl, hvalues⟩, hrest⟩ := h
    rw [List.lookup_cons, List.lookup_cons]
    split
    · exact hvalues
    · exact ih hrest
  | case3 => cases h

theorem sameStored_of_agree {s t : List (String × Value)} (hs : s.Pairwise (·.1 < ·.1))
    (ht : t.Pairwise (·.1 < ·.1))
    (h : ∀ name, Value.agree (s.lookup name) (t.lookup name) = true) : sameStored s t = true := by
  induction s generalizing t with
  | nil =>
    cases t with
    | nil => rfl
    | cons entry others =>
      have hfirst := h entry.1
      rw [List.lookup_cons_self] at hfirst
      cases hfirst
  | cons entry rest ih =>
    obtain ⟨a, v⟩ := entry
    obtain ⟨ha, hrest⟩ := List.pairwise_cons.mp hs
    cases t with
    | nil =>
      have hfirst := h a
      rw [List.lookup_cons_self] at hfirst
      cases hfirst
    | cons entry others =>
      obtain ⟨b, w⟩ := entry
      obtain ⟨hb, hothers⟩ := List.pairwise_cons.mp ht
      -- the first name of either is found in the other
      have hname : a = b := by
        refine String.le_antisymm (NameTable.first_le v ha fun hnone => ?_)
          (NameTable.first_le w hb fun hnone => ?_)
        · have hfirst := h b
          rw [List.lookup_cons_self, hnone] at hfirst
          cases hfirst
        · have hfirst := h a
          rw [List.lookup_cons_self, hnone] at hfirst
          cases hfirst
      subst hname
      have hvalues := h a
      rw [List.lookup_cons_self, List.lookup_cons_self] at hvalues
      have htail : sameStored rest others = true := by
        refine ih hrest hothers fun name => ?_
        by_cases hne : name = a
        · subst hne
          rw [NameTable.lookup_eq_none_of_lt ha, NameTable.lookup_eq_none_of_lt hb]
          rfl
        · have hother := h name
          rwa [List.lookup_cons, List.lookup_cons, beq_false_of_ne hne] at hother
      simp [sameStored, htail, show v.identical w = true from hvalues]

/-- **Two sorted tables have pairwise identical values exactly if they agree on each name.** -/
theorem sameStored_iff {s t : NameTable Value} (hs : s.Sorted) (ht : t.Sorted) :
    sameStored s.entries t.entries = true ↔
      ∀ name, Value.agree (s.find? name) (t.find? name) = true :=
  ⟨agree_of_sameStored, sameStored_of_agree hs ht⟩

/-! ## What a write does to a comparison -/

/-- Two instances have the same class and agree on every name but one. -/
structure AlikeBut (w : World β) (name : String) (a b : InstanceId) (x y : Instance β) :
    Prop where
  left : w.instance? a = some x
  right : w.instance? b = some y
  same : x.ofClass.same y.ofClass = true
  agree : ∀ key, key ≠ name → Value.agree (x.stored.find? key) (y.stored.find? key) = true

/-- One of two values that are compared, `old` and `value`, is the written instance `i` itself, and
apart from the written property it is like the other one, which holds `held` there. -/
def Entangles (w : World β) (i : InstanceId) (name : String) (old value held : Value) : Prop :=
  ∃ a b x y, old = .object (some a) ∧ value = .object (some b) ∧ a ≠ b ∧ w.AlikeBut name a b x y ∧
    (i = a ∧ y.stored.find? name = some held ∨ i = b ∧ x.stored.find? name = some held)

section
variable {w : World β} {i a b : InstanceId} {name : String}

/-- Only a comparison of two instances looks at the world. -/
theorem structurallyEqual_eq_identical (w : World β) {old value : Value}
    (h : ¬∃ a b, old = .object (some a) ∧ value = .object (some b) ∧ a ≠ b) :
    w.structurallyEqual old value = old.identical value := by
  unfold structurallyEqual
  split
  · next a b =>
    have hab : a = b := by
      by_contra hne
      exact h ⟨a, b, rfl, rfl, hne⟩
    rw [if_pos hab, hab]
    exact (beq_self_eq_true (some b)).symm
  · rfl

theorem structurallyEqual_of_ne (w : World β) (hne : a ≠ b) :
    w.structurallyEqual (.object (some a)) (.object (some b)) =
      match w.instance? a, w.instance? b with
      | some x, some y =>
        x.ofClass.same y.ofClass && sameStored x.stored.entries y.stored.entries
      | _, _ => false :=
  if_neg hne

/-- Two different instances are equal exactly if they are alike but for a name and agree on that
name, too. -/
theorem structurallyEqual_iff (hsorted : w.Sorted) (hne : a ≠ b) (name : String) :
    w.structurallyEqual (.object (some a)) (.object (some b)) = true ↔
      ∃ x y, w.AlikeBut name a b x y ∧
        Value.agree (x.stored.find? name) (y.stored.find? name) = true := by
  constructor
  · intro h
    rw [structurallyEqual_of_ne w hne] at h
    split at h
    · next x y hx hy =>
      obtain ⟨hsame, hstored⟩ := Bool.and_eq_true_iff.mp h
      have hagree := (sameStored_iff (hsorted a _ _ (values?_eq hx))
        (hsorted b _ _ (values?_eq hy))).mp hstored
      exact ⟨x, y, ⟨hx, hy, hsame, fun key _ => hagree key⟩, hagree name⟩
    · cases h
  · rintro ⟨x, y, hlike, hname⟩
    have hstored : sameStored x.stored.entries y.stored.entries = true := by
      refine (sameStored_iff (hsorted a _ _ (values?_eq hlike.left))
        (hsorted b _ _ (values?_eq hlike.right))).mpr fun key => ?_
      by_cases hkey : key = name
      · exact hkey ▸ hname
      · exact hlike.agree key hkey
    rw [structurallyEqual_of_ne w hne, hlike.left, hlike.right]
    exact Bool.and_eq_true_iff.mpr ⟨hlike.same, hstored⟩

/-- What a write leaves of the likeness of two instances: all of it. -/
theorem alikeBut_store (name : String) (value : Value) :
    (∃ x y, (w.modifyInstance i (·.store name value)).AlikeBut name a b x y ∧
        Value.agree (x.stored.find? name) (y.stored.find? name) = true) ↔
      ∃ x y, w.AlikeBut name a b x y ∧
        Value.agree (if a = i then some value else x.stored.find? name)
          (if b = i then some value else y.stored.find? name) = true := by
  have hfind (j : InstanceId) (z : Instance β) (key : String) :
      (if j = i then z.store name value else z).stored.find? key =
        if key = name then (if j = i then some value else z.stored.find? name)
        else z.stored.find? key := by
    by_cases hj : j = i
    · rw [if_pos hj, if_pos hj]
      exact NameTable.find?_insert z.stored name key value
    · rw [if_neg hj, if_neg hj]
      split
      · next hkey => rw [hkey]
      · rfl
  have hclass (j : InstanceId) (z : Instance β) :
      (if j = i then z.store name value else z).ofClass = z.ofClass := by
    split <;> rfl
  have hinstance (j : InstanceId) : (w.modifyInstance i (·.store name value)).instance? j =
      (w.instance? j).map fun z => if j = i then z.store name value else z := by
    rw [instance?_modifyInstance]
    split
    · rfl
    · exact Option.map_id'.symm
  constructor
  · rintro ⟨x', y', ⟨hx', hy', hsame, hagree⟩, hname⟩
    rw [hinstance] at hx' hy'
    obtain ⟨x, hx, rfl⟩ := Option.map_eq_some_iff.mp hx'
    obtain ⟨y, hy, rfl⟩ := Option.map_eq_some_iff.mp hy'
    rw [hfind, hfind, if_pos rfl, if_pos rfl] at hname
    rw [hclass, hclass] at hsame
    refine ⟨x, y, ⟨hx, hy, hsame, fun key hkey => ?_⟩, hname⟩
    have hother := hagree key hkey
    rwa [hfind, hfind, if_neg hkey, if_neg hkey] at hother
  · rintro ⟨x, y, ⟨hx, hy, hsame, hagree⟩, hname⟩
    refine ⟨_, _, ⟨(hinstance a).trans (congrArg _ hx), (hinstance b).trans (congrArg _ hy), ?_,
      fun key hkey => ?_⟩, ?_⟩
    · rw [hclass, hclass]
      exact hsame
    · rw [hfind, hfind, if_neg hkey, if_neg hkey]
      exact hagree key hkey
    · rw [hfind, hfind, if_pos rfl, if_pos rfl]
      exact hname

/-- Where the written instance is compared, it is the value of the other one that decides, before
the write and after it. -/
theorem structurallyEqual_iff_entangles (hsorted : w.Sorted) {z : Instance β}
    (hz : w.instance? i = some z) (hold : z.stored.find? name = some (.object (some a)))
    (hne : a ≠ b) (hi : i = a ∨ i = b) :
    (w.structurallyEqual (.object (some a)) (.object (some b)) = true ↔
      w.Entangles i name (.object (some a)) (.object (some b)) (.object (some a))) ∧
    ((w.modifyInstance i (·.store name (.object (some b)))).structurallyEqual
        (.object (some a)) (.object (some b)) = true ↔
      w.Entangles i name (.object (some a)) (.object (some b)) (.object (some b))) := by
  have hleft {x y : Instance β} (h : w.AlikeBut name a b x y) (hi : i = a) :
      x.stored.find? name = some (.object (some a)) := by
    cases (hi ▸ hz).symm.trans h.left
    exact hold
  have hright {x y : Instance β} (h : w.AlikeBut name a b x y) (hi : i = b) :
      y.stored.find? name = some (.object (some a)) := by
    cases (hi ▸ hz).symm.trans h.right
    exact hold
  have hentangles (held : Value) :
      w.Entangles i name (.object (some a)) (.object (some b)) held ↔
        ∃ x y, w.AlikeBut name a b x y ∧
          (i = a ∧ y.stored.find? name = some held ∨ i = b ∧ x.stored.find? name = some held) := by
    constructor
    · rintro ⟨_, _, x, y, ⟨⟩, ⟨⟩, -, hlike, hheld⟩
      exact ⟨x, y, hlike, hheld⟩
    · rintro ⟨x, y, hlike, hheld⟩
      exact ⟨a, b, x, y, rfl, rfl, hne, hlike, hheld⟩
  constructor
  · rw [structurallyEqual_iff hsorted hne name, hentangles]
    refine exists_congr fun x => exists_congr fun y => and_congr_right fun hlike => ?_
    rcases hi with hi | hi
    · rw [hleft hlike hi, Value.agree_object_left]
      simp [hi, hne]
    · rw [hright hlike hi, Value.agree_object_right]
      simp [hi, hne.symm]
  · rw [structurallyEqual_iff (hsorted.store hz name _) hne name, alikeBut_store, hentangles]
    refine exists_congr fun x => exists_congr fun y => and_congr_right fun hlike => ?_
    rcases hi with hi | hi
    · rw [if_pos hi.symm, if_neg fun h => hne (hi.symm.trans h.symm), Value.agree_object_left]
      simp [hi, hne]
    · rw [if_pos hi.symm, if_neg fun h => hne (h.trans hi), Value.agree_object_right]
      simp [hi, hne.symm]

/-- A write to an instance that is not compared leaves the comparison as it is. -/
theorem structurallyEqual_store_of_ne {old value : Value} (v : Value)
    (h : ∀ j, old = .object (some j) ∨ value = .object (some j) → j ≠ i) :
    (w.modifyInstance i (·.store name v)).structurallyEqual old value =
      w.structurallyEqual old value := by
  by_cases htwo : ∃ a b, old = .object (some a) ∧ value = .object (some b) ∧ a ≠ b
  · obtain ⟨a, b, rfl, rfl, hne⟩ := htwo
    rw [structurallyEqual_of_ne _ hne, structurallyEqual_of_ne _ hne, instance?_modifyInstance,
      instance?_modifyInstance, if_neg (h a (.inl rfl)), if_neg (h b (.inr rfl))]
  · rw [structurallyEqual_eq_identical _ htwo, structurallyEqual_eq_identical _ htwo]

theorem Entangles.unique {old value held held' : Value} (h : w.Entangles i name old value held)
    (h' : w.Entangles i name old value held') : held = held' := by
  obtain ⟨a, b, x, y, rfl, rfl, hne, hlike, hheld⟩ := h
  obtain ⟨_, _, x', y', ⟨⟩, ⟨⟩, -, hlike', hheld'⟩ := h'
  cases hlike.left.symm.trans hlike'.left
  cases hlike.right.symm.trans hlike'.right
  rcases hheld with ⟨rfl, hy⟩ | ⟨rfl, hx⟩ <;> rcases hheld' with ⟨hi, hy'⟩ | ⟨hi, hx'⟩
  · exact Option.some.inj (hy.symm.trans hy')
  · exact absurd hi hne
  · exact absurd hi hne.symm
  · exact Option.some.inj (hx.symm.trans hx')

/-- **When a comparison is changed by the write that it is made for**: exactly if the written
instance is entangled with the other one that is compared. Equal values come to differ if the other
one holds the old value, different ones become equal if it holds the new one. -/
theorem judgement_changes_iff (hsorted : w.Sorted) {z : Instance β} (hz : w.instance? i = some z)
    {old : Value} (hold : z.stored.find? name = some old) (value : Value) :
    (w.structurallyEqual old value = true ∧
        (w.modifyInstance i (·.store name value)).structurallyEqual old value = false ↔
      w.Entangles i name old value old) ∧
    (w.structurallyEqual old value = false ∧
        (w.modifyInstance i (·.store name value)).structurallyEqual old value = true ↔
      w.Entangles i name old value value) := by
  by_cases htwo : ∃ a b, old = .object (some a) ∧ value = .object (some b) ∧ a ≠ b ∧
      (i = a ∨ i = b)
  · obtain ⟨a, b, rfl, rfl, hne, hi⟩ := htwo
    obtain ⟨hbefore, hafter⟩ := structurallyEqual_iff_entangles hsorted hz hold hne hi
    have hone : w.Entangles i name (.object (some a)) (.object (some b)) (.object (some a)) →
        ¬w.Entangles i name (.object (some a)) (.object (some b)) (.object (some b)) := by
      intro h h'
      cases h.unique h'
      exact hne rfl
    rw [← Bool.not_eq_true, ← Bool.not_eq_true, hbefore, hafter]
    exact ⟨⟨And.left, fun h => ⟨h, hone h⟩⟩, ⟨And.right, fun h => ⟨fun h' => hone h' h, h⟩⟩⟩
  · -- the written instance is not compared with another one
    have hnot (held : Value) : ¬w.Entangles i name old value held := by
      rintro ⟨a, b, x, y, ha, hb, hne, -, hheld⟩
      exact htwo ⟨a, b, ha, hb, hne, hheld.imp And.left And.left⟩
    have hsame : (w.modifyInstance i (·.store name value)).structurallyEqual old value =
        w.structurallyEqual old value := by
      by_cases hobjects : ∃ a b, old = .object (some a) ∧ value = .object (some b) ∧ a ≠ b
      · obtain ⟨a, b, ha, hb, hne⟩ := hobjects
        refine structurallyEqual_store_of_ne value fun j hj hji => htwo ⟨a, b, ha, hb, hne, ?_⟩
        rw [ha, hb] at hj
        rcases hj with hj | hj
        · cases hj
          exact .inl hji.symm
        · cases hj
          exact .inr hji.symm
      · rw [structurallyEqual_eq_identical _ hobjects, structurallyEqual_eq_identical _ hobjects]
    rw [hsame]
    refine ⟨iff_of_false ?_ (hnot old), iff_of_false ?_ (hnot value)⟩
    · rintro ⟨htrue, hfalse⟩
      cases htrue.symm.trans hfalse
    · rintro ⟨hfalse, htrue⟩
      cases htrue.symm.trans hfalse

end

end World

/-! ## Reports -/

/-- What an admitted write that compares structurally leaves to be done. -/
theorem World.frames_storeValue {w : World β} {i : InstanceId} {x : Instance β}
    (hx : w.instance? i = some x) {spec : PropertySpec} {notify : Option NotifyPolicy}
    {equality : Option ObjectEquality}
    (hstructural : equality.getD (w.configOf x).objectEquality = .structural)
    (hpolicy : notify.getD (w.configOf x).notifyPolicy = .onChange)
    {old : Value} (hold : x.stored.find? spec.name = some old) (effect : Option β) (value : Value) :
    (w.storeValue i x spec notify equality effect value).frames =
      if (w.modifyInstance i (·.store spec.name value)).structurallyEqual old value = true then
        [.runEffect i spec.name effect value]
      else
        [.emission (w.changeEmission i spec.canonicalName),
          .runEffect i spec.name effect value] := by
  unfold storeValue
  dsimp only
  rw [hstructural, hpolicy, hold, changeEmission_store hx]
  cases hequal : (w.modifyInstance i (·.store spec.name value)).structurallyEqual old value <;>
    simp [valuesEqual, hequal, Progress.proceed]

/-- A write that compares structurally is reported exactly if the old and the new value differ when
the new one is stored. -/
theorem Machine.reports_iff (client : Client σ β κ) {m : Machine σ β κ} {i : InstanceId}
    {name : String} {value : Value} (hm : m.control = .perform (.setProperty i name value))
    {x : Instance β} (hx : m.world.instance? i = some x) {spec : PropertySpec}
    {notify : Option NotifyPolicy} {equality : Option ObjectEquality} {effect : Option β}
    (hadmitted : x.admitWrite m.world.isA name value = .ok (.stored spec notify equality effect))
    (hstructural : equality.getD (m.world.configOf x).objectEquality = .structural)
    (hpolicy : notify.getD (m.world.configOf x).notifyPolicy = .onChange)
    {old : Value} (hold : x.stored.find? spec.name = some old) :
    (.reports ∈ m.deeds client i spec.name ↔
      (m.world.modifyInstance i (·.store spec.name value)).structurallyEqual old value = false) ∧
    (.reports ∈ m.deeds client i spec.name → (m.step client).stack =
      .operation (.emission (m.world.changeEmission i spec.canonicalName)) ::
        .operation (.runEffect i spec.name effect value) :: m.stack) := by
  have hwritten : m.written? i spec.name = some value :=
    written?_eq_some.mpr ⟨name, x, spec, notify, equality, effect, hm, hx, hadmitted, rfl⟩
  have hf := follows_store client hm hx hadmitted
  have hstack := hf.stack
  rw [World.frames_storeValue hx hstructural hpolicy hold] at hstack
  -- only a write begins a report
  have hreport : m.reportDeeds i spec.name = [] := by
    unfold reportDeeds
    rw [hm]
  have heffect : m.effectDeeds client i spec.name = [] := by
    unfold effectDeeds
    rw [hf.control, World.control_storeValue]
  unfold deeds writeDeeds
  rw [hreport, heffect, hwritten, List.append_nil, List.append_nil, hstack]
  cases (m.world.modifyInstance i (·.store spec.name value)).structurallyEqual old value with
  | true => simp [Layer.emission?, Frame.emission?]
  | false => exact ⟨iff_of_true (List.mem_cons_of_mem _ List.mem_cons_self) rfl, fun _ => rfl⟩

/-- **Structural comparisons are made too late.** In every reachable state, an admitted write to a
stored property that has a value, compares objects structurally and reports changes only stores the
value, and the change signal begins exactly if the old and the new value differ afterwards. This is
not whether they differed before if the written instance is entangled with the other one that is
compared: equal values are reported as a change if the other instance holds the old value, and a
change is not reported if it holds the new one. -/
theorem structural_writes_compare_later (client : Client σ β κ) (m : Machine σ β κ)
    (hreach : m.Reachable client) (i : InstanceId) (x : Instance β)
    (hx : m.world.instance? i = some x) (name : String) (value : Value)
    (hm : m.control = .perform (.setProperty i name value)) (spec : PropertySpec)
    (notify : Option NotifyPolicy) (equality : Option ObjectEquality) (effect : Option β)
    (hfind : x.ofClass.findProperty? name = some ⟨spec, .stored notify equality effect⟩)
    (hstructural : equality.getD (m.world.configOf x).objectEquality = .structural)
    (hpolicy : notify.getD (m.world.configOf x).notifyPolicy = .onChange)
    (hadmitted : ∀ e, ¬x.Refuses m.world.isA name value e)
    (old : Value) (hold : x.stored.find? spec.name = some old) :
    m.written? i spec.name = some value ∧
      (.reports ∈ m.deeds client i spec.name ↔
        (m.world.modifyInstance i (·.store spec.name value)).structurallyEqual old value = false) ∧
      (.reports ∈ m.deeds client i spec.name → (m.step client).stack =
        .operation (.emission (m.world.changeEmission i spec.canonicalName)) ::
          .operation (.runEffect i spec.name effect value) :: m.stack) ∧
      (m.world.structurallyEqual old value = true ∧ .reports ∈ m.deeds client i spec.name ↔
        m.world.Entangles i spec.name old value old) ∧
      (m.world.structurallyEqual old value = false ∧ .reports ∉ m.deeds client i spec.name ↔
        m.world.Entangles i spec.name old value value) := by
  have hok : x.admitWrite m.world.isA name value = .ok (.stored spec notify equality effect) := by
    rcases Instance.admitWrite_stored m.world.isA value hfind with ⟨e, he⟩ | hok
    · exact absurd (Instance.admitWrite_eq_error.mp he) (hadmitted e)
    · exact hok
  obtain ⟨hreports, hstack⟩ := Machine.reports_iff client hm hx hok hstructural hpolicy hold
  obtain ⟨hequal, hdifferent⟩ := World.judgement_changes_iff hreach.sorted hx hold value
  refine ⟨Machine.written?_eq_some.mpr ⟨name, x, spec, notify, equality, effect, hm, hx, hok, rfl⟩,
    hreports, hstack, ?_, ?_⟩
  · rw [hreports]
    exact hequal
  · rw [hreports, Bool.not_eq_false]
    exact hdifferent

/-- A class of things that refer to each other, and compare what they refer to structurally. -/
def mirror : Except ClassError (ClassBuilder Nat) :=
  { className := "Mirror" : ClassBuilder Nat }.stored .builtin "peer" (.named "Object") {}
    none (some .structural) none

def mirrorClass : Class Nat :=
  match mirror.bind (·.finalize .builtin) with
  | .ok (_, c) => c
  | .error _ => .simple .empty [] none

/-- A program that makes two mirrors which both refer to the first, and then lets that one refer to
the other. -/
def facing : Client Unit Nat (Routine Nat) :=
  .ofRoutines
    (fun _ => { acts := [.command (.newContext { clock := .manual }),
      .command (.construct { ofClass := mirrorClass, context := ⟨0⟩ }),
      .command (.construct { ofClass := mirrorClass, context := ⟨0⟩ }),
      .command (.setProperty ⟨1⟩ "peer" (.object (some ⟨1⟩))),
      .command (.setProperty ⟨2⟩ "peer" (.object (some ⟨1⟩))),
      .command (.setProperty ⟨1⟩ "peer" (.object (some ⟨2⟩)))] })
    [.object ⟨1⟩, .object ⟨2⟩]

/-- A state of the run of `facing`. -/
def facingAfter (n : Nat) : Machine Unit Nat (Routine Nat) :=
  (Machine.initial () 0).after facing n

set_option maxRecDepth 100000 in
/-- A mirror stays one. -/
theorem facing_class {x : Instance Nat} (hx : (facingAfter 20).world.instance? ⟨1⟩ = some x) :
    x.ofClass = mirrorClass := by
  have hmade : ((facingAfter 12).world.instance? ⟨1⟩).map (·.ofClass) = some mirrorClass := rfl
  obtain ⟨y, hy, hclass⟩ := Option.map_eq_some_iff.mp hmade
  have hlater : (facingAfter 12).after facing 8 = facingAfter 20 :=
    (Machine.after_add facing (.initial () 0) 12 8).symm
  have hkept := Machine.stored_of_writes ((Machine.Reachable.initial () 0).after 12)
    (World.values?_eq hy) (n := 8) (World.values?_eq (hlater ▸ hx))
  exact hkept.1.trans hclass

set_option maxRecDepth 100000 in
/-- The moment at which the first mirror comes to refer to the second. -/
theorem facing_write : ∃ (x : Instance Nat) (spec : PropertySpec),
    (facingAfter 20).world.instance? ⟨1⟩ = some x ∧ spec.name = "peer" ∧
    (facingAfter 20).control = .perform (.setProperty ⟨1⟩ "peer" (.object (some ⟨2⟩))) ∧
    x.ofClass.findProperty? "peer" = some ⟨spec, .stored none (some .structural) none⟩ ∧
    ((facingAfter 20).world.configOf x).notifyPolicy = .onChange ∧
    (∀ e, ¬x.Refuses (facingAfter 20).world.isA "peer" (.object (some ⟨2⟩)) e) ∧
    x.stored.find? spec.name = some (.object (some ⟨1⟩)) := by
  obtain ⟨spec, hname, hfind⟩ : ∃ spec : PropertySpec, spec.name = "peer" ∧
      mirrorClass.findProperty? "peer" = some ⟨spec, .stored none (some .structural) none⟩ :=
    ⟨_, rfl, rfl⟩
  have hfacts : ((facingAfter 20).world.instance? ⟨1⟩).map (fun x =>
      (((facingAfter 20).world.configOf x).notifyPolicy, x.stored.find? "peer",
        (x.admitWrite (facingAfter 20).world.isA "peer" (.object (some ⟨2⟩))).isOk)) =
          some (.onChange, some (.object (some ⟨1⟩)), true) := by decide +kernel
  obtain ⟨x, hx, hfacts⟩ := Option.map_eq_some_iff.mp hfacts
  rw [Prod.mk.injEq, Prod.mk.injEq] at hfacts
  obtain ⟨hpolicy, hold, hok⟩ := hfacts
  refine ⟨x, spec, hx, hname, Control.eq_of_write? (by decide +kernel), facing_class hx ▸ hfind,
    hpolicy, fun e he => ?_, hname ▸ hold⟩
  rw [Instance.admitWrite_eq_error.mpr he] at hok
  cases hok

set_option maxRecDepth 100000 in
/-- The two mirrors are entangled: the second holds what the first one did. -/
theorem structural_writes_compare_later_facing :
    (facingAfter 20).world.Entangles ⟨1⟩ "peer" (.object (some ⟨1⟩)) (.object (some ⟨2⟩))
      (.object (some ⟨1⟩)) := by
  obtain ⟨x, spec, hx, hname, hm, hfind, hpolicy, hadmitted, hold⟩ := facing_write
  obtain ⟨-, -, -, hequal, -⟩ := structural_writes_compare_later facing (facingAfter 20)
    ((Machine.Reachable.initial () 0).after 20) ⟨1⟩ x hx "peer" _ hm spec none (some .structural)
    none hfind rfl hpolicy hadmitted _ hold
  rw [hname] at hequal
  exact hequal.mp ⟨by decide +kernel, by decide +kernel⟩

set_option maxRecDepth 100000 in
/-- A change is reported although the old and the new value were structurally equal. -/
theorem equal_mirrors_reported :
    ¬∀ (m : Machine Unit Nat (Routine Nat)), m.Reachable facing →
      ∀ (i : InstanceId) (x : Instance Nat), m.world.instance? i = some x →
      ∀ (name : String) (value : Value), m.control = .perform (.setProperty i name value) →
      ∀ (spec : PropertySpec) (notify : Option NotifyPolicy) (equality : Option ObjectEquality)
        (effect : Option Nat),
        x.ofClass.findProperty? name = some ⟨spec, .stored notify equality effect⟩ →
        equality.getD (m.world.configOf x).objectEquality = .structural →
        notify.getD (m.world.configOf x).notifyPolicy = .onChange →
        (∀ e, ¬x.Refuses m.world.isA name value e) →
        ∀ old, x.stored.find? spec.name = some old →
          (.reports ∈ m.deeds facing i spec.name ↔
            m.world.structurallyEqual old value = false) := by
  intro h
  obtain ⟨x, spec, hx, hname, hm, hfind, hpolicy, hadmitted, hold⟩ := facing_write
  have hiff := h (facingAfter 20) ((Machine.Reachable.initial () 0).after 20) ⟨1⟩ x hx "peer" _ hm
    spec none (some .structural) none hfind rfl hpolicy hadmitted _ hold
  rw [hname] at hiff
  have hreported : .reports ∈ (facingAfter 20).deeds facing ⟨1⟩ "peer" := by decide +kernel
  have hequal : (facingAfter 20).world.structurallyEqual (.object (some ⟨1⟩)) (.object (some ⟨2⟩)) =
      true := by decide +kernel
  cases hequal.symm.trans (hiff.mp hreported)

end ObjectSystem
