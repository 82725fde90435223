import ObjectSystem.Proofs.Tidy
import ObjectSystem.Proofs.Written

/-!
# Instances that are held

An instance to which the shared state, what happens next or a place on the stack holds a handle lives
on: reclaiming leaves it alone (`Machine.values_reclaim`), and no move takes an instance away
(`Deal.alive`). So an instance that a place on the stack refers to is alive for as long as it
stays there (`Machine.alive_after`).
-/

namespace ObjectSystem

variable {σ β κ : Type}

/-! ## Moves -/

/-- What a move does to stored values: nothing, or an instance is created, or a value that passes a
check is stored. -/
theorem Deal.values {m m' : Machine σ β κ} (h : Deal m m') :
    (∀ i, m'.world.values? i = m.world.values? i) ∨
      (∃ ofClass context, ∀ i,
        m'.world.values? i = (m.world.addInstance ofClass context).1.values? i) ∨
      ∃ j x, ∃ spec : PropertySpec, ∃ value, m.world.instance? j = some x ∧
        spec.check m.world.isA value = .ok () ∧
        m'.world = m.world.modifyInstance j (·.store spec.name value) := by
  cases h with
  | spares hspares hs hc => exact .inl hspares.values
  | creates c hm hspares hs hc => exact .inr (.inl ⟨c.ofClass, c.context, hspares.values⟩)
  | stores j x name value spec notify equality effect hx hwrite hv hs hc =>
    exact .inr (.inr ⟨j, x, spec, value, hx, (Instance.property_of_admitWrite hwrite).2, hv⟩)
  | emits j signal detail args accumulator hv hs hc => exact .inl fun i => by rw [hv]
  | connects j x y signal target id hx hconnect htarget hv hs hc =>
    obtain ⟨hclass, hstored⟩ := World.values_of_connect hconnect
    exact .inl fun i => hv ▸ World.values?_replaceInstance hx hclass hstored i
  | awaits j x y resolve reject ids hx hconnect hv hs hc =>
    obtain ⟨hclass, hstored⟩ := World.values_of_connectEvent hconnect
    exact .inl fun i => hv ▸ World.values?_replaceInstance hx hclass hstored i
  | disconnects j id hv hs hc =>
    exact .inl fun i => hv ▸ World.values?_modifyInstance _ j i fun x => ⟨rfl, rfl⟩
  | disposes j hv hs hc => exact .inl fun i => hv ▸ World.values?_dispose _ j i
  | ends e hv hs hc => exact .inl fun i => by rw [hv]
  | turns e e' es handler hs hs' howner hremaining hv => exact .inl fun i => by rw [hv]
  | settles e e' stack reply handler event o hm hs hs' howner hremaining hconnected hout hv hc =>
    exact .inl fun i => hv ▸ World.values?_settle _ event o i

/-- No move takes an instance away. -/
theorem Deal.alive {m m' : Machine σ β κ} (h : Deal m m') {i : InstanceId}
    (halive : m.world.values? i ≠ none) : m'.world.values? i ≠ none := by
  rcases h.values with hsame | ⟨ofClass, context, hcreated⟩ | ⟨j, x, spec, value, hx, -, hv⟩
  · rwa [hsame]
  · rw [hcreated, World.values?_addInstance]
    intro hnone
    exact halive (Option.or_eq_none_iff.mp hnone).1
  · rw [hv, World.values?_store hx]
    split
    · exact Option.some_ne_none _
    · exact halive

/-! ## Reclaiming -/

namespace World

variable {w : World β} {i : InstanceId} {handles : List Handle}

theorem mem_keptInstances_of_held (w : World β) (h : .object i ∈ handles) :
    i ∈ w.keptInstances handles :=
  mem_keptInstances.mpr ⟨.object i, List.mem_append_left _ h, by simp [targets, directTargets]⟩

theorem values_abandonEvents (w : World β) (others : List EventId) (i : InstanceId) :
    (w.abandonEvents others).values? i = w.values? i :=
  abandonEvents_induction (P := fun v => v.values? i = w.values? i) w others rfl
    fun v e hv => (values?_settle v e _ i).trans hv

end World

namespace Machine

variable {client : Client σ β κ} {m : Machine σ β κ} {i : InstanceId}

theorem rootHandles_eq {m m' : Machine σ β κ} (hclient : m'.client = m.client)
    (hcontrol : m'.control = m.control) (hstack : m'.stack = m.stack) :
    m'.rootHandles client = m.rootHandles client := by
  unfold rootHandles
  rw [hclient, hcontrol, hstack]

theorem values_reclaimOnce (before : Machine σ β κ) (h : .object i ∈ m.rootHandles client) :
    (reclaimOnce client before m).world.values? i = m.world.values? i := by
  have hheld : .object i ∈ m.handles client := List.mem_append_left _ h
  refine reclaimOnce_induction client before m (P := fun v => v.values? i = m.world.values? i)
    ?_ ?_ rfl
  · intro v j hj hv
    rw [World.values?_dropInstance, if_neg, hv]
    rintro rfl
    exact hj (v.mem_keptInstances_of_held hheld)
  · exact fun v others _ hv => (v.values_abandonEvents others i).trans hv

/-- **Reclaiming leaves an instance alone that is held.** -/
theorem values_reclaim (before : Machine σ β κ) (h : .object i ∈ m.rootHandles client) :
    (reclaim client before m).world.values? i = m.world.values? i := by
  refine (reclaim_keeps client before m (P := fun m' =>
    m'.rootHandles client = m.rootHandles client ∧ m'.world.values? i = m.world.values? i)
    ⟨rfl, rfl⟩ ?_).2
  rintro before m' ⟨hroots, hvalues⟩
  refine ⟨Eq.trans (rootHandles_eq ?_ ?_ ?_) hroots,
    (values_reclaimOnce before (hroots ▸ h)).trans hvalues⟩
  · exact client_reclaimOnce client before m'
  · exact control_reclaimOnce client before m'
  · exact stack_reclaimOnce client before m'

/-- **An instance that is alive and held lives on.** -/
theorem alive_step (halive : m.world.values? i ≠ none)
    (hheld : .object i ∈ (m.step client).rootHandles client) :
    (m.step client).world.values? i ≠ none := by
  have hroots : (m.step client).rootHandles client = (m.advance client).rootHandles client :=
    rootHandles_eq (client_step client m) (control_step client m) (stack_step client m)
  have hkept : (m.step client).world.values? i = (m.advance client).world.values? i :=
    values_reclaim m (hroots ▸ hheld)
  rw [hkept]
  exact (deal_advance client m).alive halive

theorem alive_after (halive : m.world.values? i ≠ none) {n : Nat}
    (hheld : ∀ k, 0 < k → k ≤ n → .object i ∈ (m.after client k).rootHandles client) :
    (m.after client n).world.values? i ≠ none := by
  induction n with
  | zero => exact halive
  | succ n ih =>
    refine alive_step (ih fun k hpos hk => hheld k hpos (Nat.le_succ_of_le hk)) ?_
    exact hheld (n + 1) (Nat.succ_pos n) (Nat.le_refl _)

/-- A place on the stack holds what it has handles on. -/
theorem held_of_mem_stack {layer : Layer β κ} (hmem : layer ∈ m.stack)
    (h : .object i ∈ layerHandles client layer) : .object i ∈ m.rootHandles client :=
  List.mem_append_right _ (List.mem_flatMap.mpr ⟨layer, hmem, h⟩)

/-- What happens next holds what it has handles on. -/
theorem held_of_control (h : .object i ∈ m.control.handles) :
    .object i ∈ m.rootHandles client :=
  List.mem_append_left _ (List.mem_append_right _ h)

end Machine

theorem World.exists_instance {w : World β} {i : InstanceId} (h : w.values? i ≠ none) :
    ∃ x, w.instance? i = some x := by
  refine Option.ne_none_iff_exists'.mp fun hnone => h ?_
  rw [values?, hnone]
  rfl

end ObjectSystem
