import ObjectSystem.Proofs.Comparing

/-!
# Laws of equality

Values are compared in two ways: by identity, and up to the stored values of instances. Both decide
whether a write is a change, so that they had better be equivalences. They nearly are: both are
symmetric and transitive, and the only value that is not equal to itself is the double that is not a
number. This goes up in three stages:

* doubles, whose equality compares their *numerals* (`Value.numeral?`, `Value.beq_iff`);
* identity, kind by kind, and the lists of stored values (`World.sameStored_symm`,
  `World.sameStored_trans`);
* structural equality, which looks at the stored values of two instances and no further, so that
  instances may refer to each other in circles (`World.structurallyEqual_congr`).

What is not a number passes no check, so that every value that a property stores is equal to itself
(`Machine.Reachable.selfSame`). `equality_lawful` sums this up for reachable worlds.
-/

namespace ObjectSystem

variable {σ β κ : Type}

/-! ## Doubles -/

namespace Value

open Float.Model (UnpackedFloat)

/-- What equality of doubles compares: zeros have no sign, and what is not a number has no numeral. -/
def numeralOf : UnpackedFloat → Option UnpackedFloat
  | .notANumber => none
  | .zero _ => some (.zero .positive)
  | a => some a

def numeral? (x : Float) : Option UnpackedFloat :=
  numeralOf x.toModel.unpack

theorem beq_iff_numeralOf {a b : UnpackedFloat} :
    a.beq b = true ↔ numeralOf a = numeralOf b ∧ (numeralOf a).isSome = true := by
  unfold UnpackedFloat.beq
  rw [beq_iff_eq]
  -- one case for each sign of each of the four kinds of doubles, on either side
  obtain (_ | _) | _ | s | ⟨_ | _, m, d, hm⟩ := a <;>
    obtain (_ | _) | _ | t | ⟨_ | _, n, e, hn⟩ := b <;>
    simp [UnpackedFloat.compare, numeralOf, and_comm]
  all_goals rfl

/-- Doubles are equal if they have the same numeral. -/
theorem beq_iff {x y : Float} :
    (x == y) = true ↔ numeral? x = numeral? y ∧ (numeral? x).isSome = true :=
  beq_iff_numeralOf

theorem isSome_numeral? {x : Float} : (numeral? x).isSome = true ↔ x.isNaN = false := by
  show (numeralOf x.toModel.unpack).isSome = true ↔ x.toModel.unpack.isNaN = false
  generalize x.toModel.unpack = a
  cases a <;> simp [numeralOf, UnpackedFloat.isNaN]

/-! ## Identity -/

/-- The value is a double that is not a number. -/
def NotANumber (v : Value) : Prop := ∃ x, v = .double x ∧ x.isNaN = true

theorem identical_self {v : Value} : v.identical v = true ↔ ¬ v.NotANumber := by
  cases v with
  | double x =>
    show (x == x) = true ↔ _
    rw [beq_iff, and_iff_right rfl, isSome_numeral?, ← Bool.not_eq_true]
    refine not_congr ⟨fun hnan => ⟨x, rfl, hnan⟩, ?_⟩
    rintro ⟨y, hy, hnan⟩
    cases hy
    exact hnan
  | _ => exact iff_of_true (beq_self_eq_true _) (by rintro ⟨x, hx, -⟩; cases hx)

theorem identical_symm {v w : Value} (h : v.identical w = true) : w.identical v = true := by
  unfold identical at h
  split at h
  case h_5 x y =>
    obtain ⟨hsame, hsome⟩ := beq_iff.mp h
    exact beq_iff.mpr ⟨hsame.symm, hsame ▸ hsome⟩
  case h_8 => cases h
  all_goals
    cases eq_of_beq h
    exact h

theorem identical_trans {u v w : Value} (h : u.identical v = true) (h' : v.identical w = true) :
    u.identical w = true := by
  unfold identical at h
  split at h
  case h_5 x y =>
    cases w with
    | double z =>
      obtain ⟨hxy, hsome⟩ := beq_iff.mp h
      exact beq_iff.mpr ⟨hxy.trans (beq_iff.mp h').1, hsome⟩
    | _ => cases h'
  case h_8 => cases h
  all_goals
    cases eq_of_beq h
    exact h'

theorem identical_comm (v w : Value) : v.identical w = w.identical v :=
  Bool.eq_iff_iff.mpr ⟨identical_symm, identical_symm⟩

/-- What passes a check is a number if it is a double. -/
theorem identical_of_check {isA : InstanceId → TypeHandle → Bool} {spec : PropertySpec} {v : Value}
    (h : spec.check isA v = .ok ()) : v.identical v = true := by
  rw [identical_self]
  rintro ⟨x, rfl, hnan⟩
  cases hnan.symm.trans (PropertySpec.isNaN_of_check h)

end Value

/-! ## Structural equality -/

namespace World

theorem sameStored_symm {s t : List (String × Value)} (h : sameStored s t = true) :
    sameStored t s = true := by
  fun_induction sameStored s t with
  | case1 => rfl
  | case2 a v rest b w others ih =>
    simp only [Bool.and_eq_true, beq_iff_eq] at h
    obtain ⟨⟨hname, hvalue⟩, hrest⟩ := h
    simp [sameStored, hname, Value.identical_symm hvalue, ih hrest]
  | case3 => cases h

theorem sameStored_trans {s t u : List (String × Value)} (h : sameStored s t = true)
    (h' : sameStored t u = true) : sameStored s u = true := by
  fun_induction sameStored s t generalizing u with
  | case1 => exact h'
  | case2 a v rest b w others ih =>
    cases u with
    | nil => cases h'
    | cons entry last =>
      simp only [sameStored, Bool.and_eq_true, beq_iff_eq] at h h' ⊢
      obtain ⟨⟨hname, hvalue⟩, hrest⟩ := h
      obtain ⟨⟨hname', hvalue'⟩, hrest'⟩ := h'
      exact ⟨⟨hname.trans hname', Value.identical_trans hvalue hvalue'⟩, ih hrest hrest'⟩
  | case3 => cases h

section

variable {w : World β} {a b c : Value} {i j : InstanceId}

/-- Two instances have the same class and pairwise identical stored values. -/
def Alike (w : World β) (i j : InstanceId) : Prop :=
  ∃ x y, w.instance? i = some x ∧ w.instance? j = some y ∧ x.ofClass.same y.ofClass = true ∧
    sameStored x.stored.entries y.stored.entries = true

theorem Alike.symm (h : w.Alike i j) : w.Alike j i := by
  obtain ⟨x, y, hx, hy, hclass, hstored⟩ := h
  refine ⟨y, x, hy, hx, ?_, sameStored_symm hstored⟩
  exact decide_eq_true (of_decide_eq_true hclass).symm

theorem Alike.trans {k : InstanceId} (h : w.Alike i j) (h' : w.Alike j k) : w.Alike i k := by
  obtain ⟨x, y, hx, hy, hclass, hstored⟩ := h
  obtain ⟨y', z, hy', hz, hclass', hstored'⟩ := h'
  cases hy.symm.trans hy'
  refine ⟨x, z, hx, hz, ?_, sameStored_trans hstored hstored'⟩
  exact decide_eq_true ((of_decide_eq_true hclass).trans (of_decide_eq_true hclass'))

/-- Two different instances are structurally equal exactly if they are alike. -/
theorem structurallyEqual_iff_alike (hne : i ≠ j) :
    w.structurallyEqual (.object (some i)) (.object (some j)) = true ↔ w.Alike i j := by
  rw [structurallyEqual_of_ne w hne]
  constructor
  · intro h
    split at h
    · next x y hx hy =>
      obtain ⟨hclass, hstored⟩ := Bool.and_eq_true_iff.mp h
      exact ⟨x, y, hx, hy, hclass, hstored⟩
    · cases h
  · rintro ⟨x, y, hx, hy, hclass, hstored⟩
    rw [hx, hy]
    exact Bool.and_eq_true_iff.mpr ⟨hclass, hstored⟩

/-- **Structural equality** is identity, but for instances that are alike. -/
theorem structurallyEqual_eq_true : w.structurallyEqual a b = true ↔
    a.identical b = true ∨ ∃ i j, a = .object (some i) ∧ b = .object (some j) ∧ w.Alike i j := by
  by_cases hobjects : ∃ i j, a = .object (some i) ∧ b = .object (some j) ∧ i ≠ j
  · obtain ⟨i, j, rfl, rfl, hne⟩ := hobjects
    rw [structurallyEqual_iff_alike hne]
    constructor
    · exact fun halike => .inr ⟨i, j, rfl, rfl, halike⟩
    · rintro (hidentical | ⟨_, _, ⟨⟩, ⟨⟩, halike⟩)
      · exact absurd (Option.some.inj (eq_of_beq hidentical)) hne
      · exact halike
  · rw [structurallyEqual_eq_identical w hobjects]
    constructor
    · exact .inl
    · rintro (hidentical | ⟨i, j, rfl, rfl, -⟩)
      · exact hidentical
      · by_contra hidentical
        exact hobjects ⟨i, j, rfl, rfl, fun h => hidentical (h ▸ beq_self_eq_true (some i))⟩

theorem structurallyEqual_of_identical (w : World β) (h : a.identical b = true) :
    w.structurallyEqual a b = true :=
  structurallyEqual_eq_true.mpr (.inl h)

theorem structurallyEqual_self : w.structurallyEqual a a = true ↔ ¬ a.NotANumber := by
  rw [structurallyEqual_eq_identical w, Value.identical_self]
  rintro ⟨i, j, hi, hj, hne⟩
  cases hi.symm.trans hj
  exact hne rfl

theorem structurallyEqual_symm (h : w.structurallyEqual a b = true) :
    w.structurallyEqual b a = true := by
  rw [structurallyEqual_eq_true] at h ⊢
  obtain hidentical | ⟨i, j, ha, hb, halike⟩ := h
  · exact .inl (Value.identical_symm hidentical)
  · exact .inr ⟨j, i, hb, ha, halike.symm⟩

/-- What is identical to an instance is that instance. -/
theorem eq_of_identical_object (h : a.identical (.object (some i)) = true) :
    a = .object (some i) := by
  cases a with
  | object target => rw [eq_of_beq (show (target == some i) = true from h)]
  | _ => cases h

theorem structurallyEqual_trans (h : w.structurallyEqual a b = true)
    (h' : w.structurallyEqual b c = true) : w.structurallyEqual a c = true := by
  rw [structurallyEqual_eq_true] at h h'
  obtain hidentical | ⟨i, j, rfl, rfl, halike⟩ := h
  · obtain hidentical' | ⟨i, j, rfl, rfl, halike⟩ := h'
    · exact structurallyEqual_of_identical w (Value.identical_trans hidentical hidentical')
    · rw [eq_of_identical_object hidentical]
      exact structurallyEqual_eq_true.mpr (.inr ⟨i, j, rfl, rfl, halike⟩)
  · obtain hidentical' | ⟨_, k, ⟨⟩, rfl, halike'⟩ := h'
    · rw [eq_of_identical_object (Value.identical_symm hidentical')]
      exact structurallyEqual_eq_true.mpr (.inr ⟨i, j, rfl, rfl, halike⟩)
    · exact structurallyEqual_eq_true.mpr (.inr ⟨i, k, rfl, rfl, halike.trans halike'⟩)

theorem structurallyEqual_comm (w : World β) (a b : Value) :
    w.structurallyEqual a b = w.structurallyEqual b a :=
  Bool.eq_iff_iff.mpr ⟨structurallyEqual_symm, structurallyEqual_symm⟩

theorem alike_iff_values? : w.Alike i j ↔ ∃ c s d t, w.values? i = some (c, s) ∧
    w.values? j = some (d, t) ∧ c.same d = true ∧ sameStored s.entries t.entries = true := by
  constructor
  · rintro ⟨x, y, hx, hy, hclass, hstored⟩
    exact ⟨_, _, _, _, values?_eq hx, values?_eq hy, hclass, hstored⟩
  · rintro ⟨c, s, d, t, hi, hj, hclass, hstored⟩
    obtain ⟨x, hx, ⟨⟩⟩ := Option.map_eq_some_iff.mp hi
    obtain ⟨y, hy, ⟨⟩⟩ := Option.map_eq_some_iff.mp hj
    exact ⟨x, y, hx, hy, hclass, hstored⟩

/-- **The comparison looks no further** than at the class and the stored values of the two instances:
what the instances are that these refer to does not matter. -/
theorem structurallyEqual_congr {v : World β}
    (h : ∀ i ∈ a.targets ++ b.targets, v.values? i = w.values? i) :
    v.structurallyEqual a b = w.structurallyEqual a b := by
  rw [Bool.eq_iff_iff, structurallyEqual_eq_true, structurallyEqual_eq_true]
  refine or_congr Iff.rfl (exists_congr fun i => exists_congr fun j => and_congr_right ?_)
  rintro rfl
  refine and_congr_right ?_
  rintro rfl
  rw [alike_iff_values?, alike_iff_values?, h i (by simp [Value.targets, Value.asObject?]),
    h j (by simp [Value.targets, Value.asObject?])]

end

/-! ## Stored values -/

/-- Every stored value is identical to itself. -/
def SelfSame (w : World β) : Prop :=
  ∀ i c stored, w.values? i = some (c, stored) →
    ∀ name v, stored.find? name = some v → v.identical v = true

end World

/-- A move stores only what is identical to itself. -/
theorem Deal.selfSame {m m' : Machine σ β κ} (h : Deal m m') (hw : m.world.SelfSame) :
    m'.world.SelfSame := by
  intro i c stored hstored name v hv
  rcases h.values with hsame | ⟨ofClass, context, hcreated⟩ | ⟨j, x, spec, value, hx, hcheck, hworld⟩
  · exact hw i c stored (hsame i ▸ hstored) name v hv
  · rw [hcreated, World.values?_addInstance] at hstored
    rcases Option.or_eq_some_iff.mp hstored with hold | ⟨-, hnew⟩
    · exact hw i c stored hold name v hv
    · split at hnew
      · cases hnew
        cases hv
      · cases hnew
  · rw [hworld, World.values?_store hx] at hstored
    split at hstored
    · cases hstored
      rw [NameTable.find?_insert] at hv
      split at hv
      · cases hv
        exact Value.identical_of_check hcheck
      · exact hw j _ _ (World.values?_eq hx) name v hv
    · exact hw i c stored hstored name v hv

theorem Machine.Reachable.selfSame {client : Client σ β κ} {m : Machine σ β κ}
    (h : m.Reachable client) : m.world.SelfSame := by
  induction h with
  | initial state callback => exact fun i c stored hstored => (by cases hstored)
  | @step m h ih =>
    intro i c stored hstored
    exact (deal_advance client m).selfSame ih i c stored ((sheds_step client m).values hstored)

/-- **Equality is lawful.** In every reachable state both comparisons are symmetric and transitive on
all values, and reflexive on all but the double that is not a number; identical values are
structurally equal. Whatever refers to whatever, structural equality is told from the class and the
stored values of the two instances alone. And identity is reflexive on what a property can store:
what passes the check of a property, and what is stored. -/
theorem equality_lawful (client : Client σ β κ) (m : Machine σ β κ) (hreach : m.Reachable client) :
    ((∀ a b, m.world.structurallyEqual a b = m.world.structurallyEqual b a) ∧
      (∀ a b c, m.world.structurallyEqual a b = true → m.world.structurallyEqual b c = true →
        m.world.structurallyEqual a c = true) ∧
      (∀ a, m.world.structurallyEqual a a = true ↔ ¬ a.NotANumber) ∧
      (∀ a b, a.identical b = true → m.world.structurallyEqual a b = true) ∧
      ∀ a b (w : World β), (∀ i ∈ a.targets ++ b.targets, w.values? i = m.world.values? i) →
        w.structurallyEqual a b = m.world.structurallyEqual a b) ∧
    (∀ a b : Value, a.identical b = b.identical a) ∧
    (∀ a b c : Value, a.identical b = true → b.identical c = true → a.identical c = true) ∧
    (∀ (spec : PropertySpec) (v : Value), spec.check m.world.isA v = .ok () →
      v.identical v = true) ∧
    ∀ i x, m.world.instance? i = some x → ∀ name v, x.stored.find? name = some v →
      v.identical v = true :=
  ⟨⟨m.world.structurallyEqual_comm, fun _ _ _ => World.structurallyEqual_trans,
      fun _ => World.structurallyEqual_self, fun _ _ => World.structurallyEqual_of_identical _,
      fun _ _ _ => World.structurallyEqual_congr⟩,
    Value.identical_comm, fun _ _ _ => Value.identical_trans, fun _ _ => Value.identical_of_check,
    fun i _ hx => hreach.selfSame i _ _ (World.values?_eq hx)⟩

set_option maxRecDepth 100000 in
/-- Once the first mirror refers to the second one, which refers to the first, the two are equal in
neither direction; before, they were in both. -/
theorem equality_lawful_facing :
    (facingAfter 20).world.structurallyEqual (.object (some ⟨2⟩)) (.object (some ⟨1⟩)) = true ∧
    (facingAfter 24).world.structurallyEqual (.object (some ⟨2⟩)) (.object (some ⟨1⟩)) = false := by
  have hreach (n : Nat) : (facingAfter n).Reachable facing :=
    (Machine.Reachable.initial () 0).after n
  constructor
  · obtain ⟨⟨hcomm, -⟩, -⟩ := equality_lawful facing (facingAfter 20) (hreach 20)
    rw [hcomm]
    decide +kernel
  · obtain ⟨⟨hcomm, -⟩, -⟩ := equality_lawful facing (facingAfter 24) (hreach 24)
    rw [hcomm]
    decide +kernel

end ObjectSystem
