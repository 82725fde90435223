import ObjectSystem.Proofs.Sound

/-!
# The fate of one source

What a move on a desk does to a single source: it is attached, stays as it is, starts, or has run
and stays (`Desk.Move.fate`). Whatever is said about the history of a source is read off this.
-/

namespace ObjectSystem

variable {β : Type}

namespace Timetable

/-- After an edit, a source is an old one, or a new one with its deadline an interval ahead. -/
theorem Edited.mem {t u : Timetable β} (h : t.Edited u) {s : Source β} (hs : s ∈ u.sources) :
    s ∈ t.sources ∨ t.nextSource ≤ s.id.number ∧ s.running = false ∧
      s.readyAt = t.now + s.kind.delay := by
  have hnext : ∀ {u : Timetable β}, t.Edited u → t.nextSource ≤ u.nextSource := by
    intro u h
    induction h with
    | refl => exact Nat.le_refl _
    | attach _ _ _ _ ih => exact Nat.le_succ_of_le ih
    | detach _ _ ih => exact ih
  induction h with
  | refl => exact .inl hs
  | @attach v hv kind priority work ih =>
      rcases List.mem_append.mp hs with hs | hs
      · exact ih hs
      · rw [List.mem_singleton] at hs
        subst hs
        refine .inr ⟨hnext hv, rfl, ?_⟩
        show v.now + kind.delay = t.now + kind.delay
        rw [hv.now]
  | detach _ id ih => exact ih (List.mem_of_mem_filter hs)

end Timetable

/-- What became of a source that is attached after a move, given the desk before. -/
inductive Desk.Fate (d : Desk β) (t : Timetable β) (s' : Source β) : Prop
  /-- It has just been attached. -/
  | fresh (hs : t.source? s'.id = none) (hid : t.nextSource ≤ s'.id.number)
      (hrun : s'.running = false) (hready : s'.readyAt = t.now + s'.kind.delay)
  /-- It is as it was. -/
  | kept (s : Source β) (hs : t.source? s'.id = some s) (hkind : s'.kind = s.kind)
      (hwork : s'.work = s.work) (hready : s'.readyAt = s.readyAt) (hrun : s'.running = s.running)
  /-- It has started. -/
  | started (s : Source β) (hs : t.source? s'.id = some s) (hkind : s'.kind = s.kind)
      (hwork : s'.work = s.work) (hready : s'.readyAt = s.readyAt) (hold : s.running = false)
      (hrun : s'.running = true) (hwait : s'.id ∈ d.waiting)
  /-- It has run and stays. -/
  | rearmed (s : Source β) (hs : t.source? s'.id = some s) (hkind : s'.kind = s.kind)
      (hwork : s'.work = s.work) (hstay : s.work.mayStay = true) (hold : s.running = true)
      (hrun : s'.running = false)
      (hready : s'.kind.isIdle = false → s'.readyAt = t.now + s'.kind.delay)

namespace Desk

variable {ticking : Prop} {d d' : Desk β} {t t' : Timetable β}

theorem Sound.source?_of_mem (h : d.Sound) (ht : d.timetable = some t) {s : Source β}
    (hs : s ∈ t.sources) : t.source? s.id = some s :=
  (h.present t ht).source?_of_mem hs

/-- A source that is attached after a move has one of four fates. -/
theorem Move.fate (hm : Move ticking d d') (hsound : d.Sound) (ht : d.timetable = some t)
    (ht' : d'.timetable = some t') {s' : Source β} (hs' : s' ∈ t'.sources) : Fate d t s' := by
  have hts := hsound.present t ht
  have old {s : Source β} (hs : s ∈ t.sources) : t.source? s.id = some s :=
    hts.source?_of_mem hs
  have before {u : Timetable β} (hu : d.timetable = some u) : u = t :=
    Option.some.inj (hu.symm.trans ht)
  have after {u : Timetable β} (hu : d'.timetable = some u) : t' = u :=
    Option.some.inj (ht'.symm.trans hu)
  cases hm with
  | edits he hw hr =>
      rw [ht, ht'] at he
      cases he with
      | some he =>
          rcases he.mem hs' with hs | ⟨hid, hrun, hready⟩
          · exact .kept s' (old hs) rfl rfl rfl rfl
          · refine .fresh ?_ hid hrun hready
            refine List.find?_eq_none.mpr fun s hs heq => ?_
            have := hts.fresh s hs
            rw [of_decide_eq_true heq] at this
            omega
  | opens config hnone _ hw hr => cases hnone.symm.trans ht
  | drops hnone _ hw hr => cases hnone.symm.trans ht
  | ticks u now htick hu hu' hw hr =>
      obtain rfl := before hu
      rw [after hu'] at hs'
      exact .kept s' (old hs') rfl rfl rfl rfl
  | collects u hu hu' hw hr =>
      obtain rfl := before hu
      rw [after hu'] at hs'
      exact .kept s' (old hs') rfl rfl rfl rfl
  | skips u id hu hu' hid hw hr =>
      obtain rfl := before hu
      rw [after hu'] at hs'
      exact .kept s' (old hs') rfl rfl rfl rfl
  | begins u id s hu hu' hs hrun hw hr =>
      obtain rfl := before hu
      rw [after hu'] at hs'
      obtain ⟨r, hmem, rfl⟩ := Timetable.mem_modify.mp hs'
      by_cases hrid : r.id = id
      · obtain ⟨hsmem, hsid⟩ := Timetable.mem_of_source? hs
        obtain rfl := hts.eq_of_id hmem hsmem (hrid.trans hsid.symm)
        rw [if_pos hrid]
        refine .started r (old hmem) rfl rfl rfl hrun rfl ?_
        show r.id ∈ d.waiting
        rw [hw, hrid]
        exact List.mem_cons_self
      · rw [if_neg hrid]
        exact .kept r (old hmem) rfl rfl rfl rfl
  | ends u id mayStay stays hstay hu hu' hw hr =>
      obtain rfl := before hu
      rw [after hu'] at hs'
      unfold Timetable.settle at hs'
      split at hs'
      · next hstays =>
          obtain ⟨r, hmem, rfl⟩ := Timetable.mem_modify.mp hs'
          by_cases hrid : r.id = id
          · rw [if_pos hrid]
            have hmay : (r.id, true) ∈ d.running := by
              rw [hr, hrid, hstay hstays]
              exact List.mem_cons_self
            have hrun : r.running = true :=
              (hts.runs r hmem).mpr (List.mem_map_of_mem hmay)
            have hwork := hts.stays r hmem hmay
            cases hk : r.kind with
            | idle =>
                have hrearm : MainContext.rearm u.now r = { r with running := false } := by
                  simp [MainContext.rearm, hk]
                rw [hrearm]
                refine .rearmed r (old hmem) rfl rfl hwork hrun rfl fun hidle => ?_
                have : r.kind.isIdle = false := hidle
                rw [hk] at this
                cases this
            | timeout interval =>
                have hrearm : MainContext.rearm u.now r =
                    { r with running := false, readyAt := u.now + interval } := by
                  simp [MainContext.rearm, hk]
                rw [hrearm]
                refine .rearmed r (old hmem) rfl rfl hwork hrun rfl fun _ => ?_
                show u.now + interval = u.now + r.kind.delay
                rw [hk]
                rfl
          · rw [if_neg hrid]
            exact .kept r (old hmem) rfl rfl rfl rfl
      · exact .kept s' (old (List.mem_of_mem_filter hs')) rfl rfl rfl rfl

/-- A context that has just been created has no sources. -/
theorem Move.fresh (hm : Move ticking d d') (ht : d.timetable = none)
    (ht' : d'.timetable = some t') : t'.sources = [] := by
  cases hm with
  | edits he hw hr =>
      rw [ht, ht'] at he
      cases he
  | opens config _ hu hw hr =>
      rw [Option.some.inj (ht'.symm.trans hu)]
  | drops _ hnone hw hr => cases hnone.symm.trans ht'
  | ticks u now htick hu hu' hw hr => cases ht.symm.trans hu
  | collects u hu hu' hw hr => cases ht.symm.trans hu
  | skips u id hu hu' hid hw hr => cases ht.symm.trans hu
  | begins u id s hu hu' hs hrun hw hr => cases ht.symm.trans hu
  | ends u id mayStay stays hstay hu hu' hw hr => cases ht.symm.trans hu

/-- The configuration of a context never changes. -/
theorem Move.config (hm : Move ticking d d') (ht : d.timetable = some t) :
    ∃ t', d'.timetable = some t' ∧ t'.config = t.config := by
  cases hm with
  | edits he hw hr =>
      rw [ht] at he
      generalize d'.timetable = u? at he
      cases he with
      | some he => exact ⟨_, rfl, he.config⟩
  | opens config hnone ht' hw hr => cases hnone.symm.trans ht
  | drops hnone ht' hw hr => cases hnone.symm.trans ht
  | ticks u now htick hu hu' hw hr =>
      obtain rfl := Option.some.inj (hu.symm.trans ht)
      exact ⟨_, hu', rfl⟩
  | collects u hu hu' hw hr =>
      obtain rfl := Option.some.inj (hu.symm.trans ht)
      exact ⟨_, hu', rfl⟩
  | skips u id hu hu' hid hw hr =>
      obtain rfl := Option.some.inj (hu.symm.trans ht)
      exact ⟨_, hu', rfl⟩
  | begins u id s hu hu' hs hrun hw hr =>
      obtain rfl := Option.some.inj (hu.symm.trans ht)
      exact ⟨_, hu', rfl⟩
  | ends u id mayStay stays hstay hu hu' hw hr =>
      obtain rfl := Option.some.inj (hu.symm.trans ht)
      exact ⟨_, hu', u.config_settle id stays⟩

end Desk

end ObjectSystem
