import Mathlib
import ObjectSystem.Proofs.Emissions
import ObjectSystem.Proofs.Pending
import ObjectSystem.Proofs.Spellings

/-!
# Spellings of notifications

Changes of properties are reported by emissions of one signal, whose detail is a name in canonical
spelling. Names come in by five ways: a handler is connected to the detailed signal or to the changes
of a property, and a report is begun by emitting the detailed signal, by asking for it, or by a write.
On each way the name is put into canonical spelling at another place, and a write takes the name of
the property that it has found, not the one that it was given (`Class.Filed.canonicalName_eq`).

`Machine.Notifies` says which emission is the report of an operation: the operation itself begins it,
at once or when the setter that it runs has returned. Whatever the way, this emission notes the
handlers of the canonical spelling of the name (`Notifies.emission`), and since no answer ends it, it
gives all of them their turns (`Emission.Stands.turns_of_over`). `notification_spelling_is_canonical`
is the contract.
-/

namespace ObjectSystem

variable {σ β κ : Type}

open Machine (Reachable)

/-! ## Spellings -/

/-- The signal that reports changes of one property, or of all. -/
def changeSignal (name? : Option String) : String :=
  match name? with
  | some name => notifySignal ++ "::" ++ name
  | none => notifySignal

theorem Name.splitDetail_changeSignal (name? : Option String) :
    Name.splitDetail (changeSignal name?) = (notifySignal, name?) := by
  cases name? with
  | none => rfl
  | some name =>
      unfold changeSignal splitDetail notifySignal
      simp [cutDetail]

theorem Name.canonical_underscored (name : String) :
    Name.canonical (Name.underscored name) = Name.canonical name :=
  Name.respell_respell (fun c => by split <;> simp_all) name

/-- What a lookup finds has the canonical spelling of the name that was looked up. -/
theorem Class.Filed.canonicalName_eq {c : Class β} (h : c.Filed) {name : String}
    {p : PropertyEntry β} (hfind : c.findProperty? name = some p) :
    p.spec.canonicalName = Name.canonical name := by
  unfold PropertySpec.canonicalName
  rw [Class.findProperty?_eq] at hfind
  split at hfind
  · rw [h.name_of_declared? hfind]
  · rw [h.name_of_declared? hfind, Name.canonical_underscored]

/-- A write that is admitted is one through a setter that no property belongs to, or one to a property
with the canonical spelling of the name. -/
theorem Instance.canonicalName_of_admitWrite {x : Instance β} {isA : InstanceId → TypeHandle → Bool}
    {name : String} {value : Value} {write : Write β} (hfiled : x.ofClass.Filed)
    (h : x.admitWrite isA name value = .ok write) :
    (∃ callback, write = .setter callback) ∨
      ∃ spec : PropertySpec, spec.canonicalName = Name.canonical name ∧
        ((∃ callback, write = .computed spec callback) ∨
          ∃ notify equality effect, write = .stored spec notify equality effect) := by
  cases hfind : x.ofClass.findProperty? name with
  | none =>
      unfold admitWrite at h
      rw [hfind] at h
      dsimp only at h
      split at h
      · next callback _ =>
          cases h
          exact .inl ⟨callback, rfl⟩
      · cases h
  | some p => exact .inr ⟨p.spec, hfiled.canonicalName_eq hfind, write_of_admitWrite hfind h⟩

theorem Instance.addressOf_changeSignal (name? : Option String) :
    addressOf (changeSignal name?) = (notifySignal, name?.map Name.canonical) := by
  unfold addressOf
  rw [Name.splitDetail_changeSignal]
  rfl

/-- The change signal takes any detail. -/
theorem Instance.resolveSignal_notify (x : Instance β) (detail : Option String) :
    x.resolveSignal notifySignal detail = .ok .notify := by
  unfold resolveSignal
  rw [if_pos rfl]
  simp [SignalSpec.notify]

/-- A handler of one property, or of all, matches a report exactly if the names have the same
canonical spelling. -/
theorem Handler.matches_iff {h : Handler β} {name? : Option String} {name : String}
    (haddress : h.address = (notifySignal, name?.map Name.canonical)) :
    h.matches notifySignal (some (Name.canonical name)) = true ↔
      ∀ own, name? = some own → Name.canonical own = Name.canonical name := by
  obtain ⟨hsignal, hdetail⟩ := Prod.mk.inj haddress
  unfold Handler.matches
  rw [hsignal, hdetail]
  cases name? <;> simp

/-! ## Handlers of changes -/

/-- A handler is connected to the changes of one property, or of all, under a spelling of its name:
the reply is its identity. -/
structure Machine.Listens (client : Client σ β κ) (m : Machine σ β κ) (i : InstanceId)
    (name? : Option String) (callback : β) (h : Handler β) : Prop where
  asked : m.control = .perform (.connect i (changeSignal name?) callback) ∨
    m.control = .perform (.connectNotify i name? callback)
  done : (m.step client).control = .deliver (.handler h.id)
  connected : (m.step client).world.Connected i h

/-- The handler that a connection leads to, as it is known from then on. -/
theorem World.connects_of_connect {w : World β} {i : InstanceId} {signal : String}
    {target : HandlerTarget β} {id : HandlerId} (hordered : (w.connect i signal target).world.Ordered)
    (hc : (w.connect i signal target).control = .deliver (.handler id)) :
    ∃ h : Handler β, h.address = Instance.addressOf signal ∧ h.target = target ∧ h.id = id ∧
      (w.connect i signal target).world.Knows i h := by
  unfold connect at hc hordered ⊢
  cases hx : w.instance? i with
  | none =>
      rw [hx] at hc
      cases hc
  | some x =>
      rw [hx] at hc hordered
      dsimp only at hc hordered ⊢
      cases hconnect : x.connect signal target with
      | error e =>
          rw [hconnect] at hc
          cases hc
      | ok result =>
          obtain ⟨y, id'⟩ := result
          rw [hconnect] at hc hordered
          cases hc
          obtain ⟨h, haddress, htarget, hid, -, hy⟩ := Instance.estate_of_connect hconnect
          refine ⟨h, haddress, htarget, hid, ?_⟩
          have hestate : (w.modifyInstance i fun _ => y).estate? i = some y.estate := by
            rw [estate?_replaceInstance hx, if_pos rfl]
          exact Ordered.knows hordered hestate (by simp [hy])

theorem Machine.Listens.handler {client : Client σ β κ} {m : Machine σ β κ} {i : InstanceId}
    {name? : Option String} {callback : β} {h : Handler β} (hreach : Reachable client m)
    (hl : m.Listens client i name? callback h) :
    h.address = (notifySignal, name?.map Name.canonical) ∧
      (h.target = .callback callback ∨ h.target = .change callback) := by
  obtain ⟨hasked, hdone, x, hx, hmem⟩ := hl
  obtain ⟨target, hadvance, htarget⟩ : ∃ target, m.advance client =
      m.follow client m.stack (m.world.connect i (changeSignal name?) target) ∧
        (target = .callback callback ∨ target = .change callback) := by
    rcases hasked with hm | hm
    · exact ⟨_, advance_perform client hm, .inl rfl⟩
    · exact ⟨_, advance_perform client hm, .inr rfl⟩
  have hordered := hreach.ordered.evolves (deal_advance client m).evolves
  have hsheds := (sheds_step client m).evolves
  rw [hadvance] at hordered hsheds
  rw [control_step, hadvance] at hdone
  obtain ⟨g, haddress, hgtarget, hid, hknows⟩ := World.connects_of_connect hordered hdone
  -- the handler that is connected after the step is the one that was known before
  have hsame := ((hknows.evolves hsheds).2 x.estate (World.estate?_eq hx)).2 h hmem hid.symm
  rw [hsame, haddress, hgtarget]
  exact ⟨Instance.addressOf_changeSignal name?, htarget⟩

/-- A handler of changes is called with the name that it is told. -/
theorem HandlerTarget.call?_of_told {target : HandlerTarget β} {callback : β}
    (h : target = .callback callback ∨ target = .change callback) (told : String) :
    ∃ heeded, target.call? [.string told] = some (callback, [.string told], heeded) := by
  rcases h with rfl | rfl
  · exact ⟨true, rfl⟩
  · exact ⟨false, rfl⟩

/-! ## Reports -/

/-- The emission that reports a change under a canonical name and tells the handlers another one, or
the same. -/
def World.reportOf (w : World β) (i : InstanceId) (canonical told : String) : Emission β :=
  w.emissionOf i notifySignal (some canonical) [.string told] SignalSpec.notify.accumulator

/-- A frame of an operation that reports, if at all, under this name. -/
def Frame.Reports (i : InstanceId) (name : String) : Frame β → Prop
  | .reportChange j reported => j = i ∧ reported = name
  | .emission _ | .runEffect .. | .finishWrite _ => True
  | _ => False

/-- An emission that is new in the frames of an operation is its report. -/
structure Progress.Reports (w : World β) (i : InstanceId) (name told : String) (p : Progress β) :
    Prop where
  frames : ∀ f ∈ p.frames, f.Reports i name
  begins : ∀ e, p.frames.filterMap Frame.emission? = [e] → e = w.reportOf i name told

namespace World

variable {w : World β} {i : InstanceId} {name told : String}

theorem reports_reply (v : World β) (r : Reply β) : (Progress.reply v r).Reports w i name told :=
  ⟨fun f hf => (by cases hf), fun e he => (by cases he)⟩

theorem reports_reportChange : (w.reportChange i name).Reports w i name name := by
  refine ⟨List.forall_mem_cons.mpr ⟨trivial, List.forall_mem_singleton.mpr trivial⟩, fun e he => ?_⟩
  cases he
  rfl

theorem reports_emit (told : String) :
    (w.emit i (changeSignal (some name)) [.string told]).Reports w i (Name.canonical name) told := by
  unfold emit
  split
  · exact reports_reply _ _
  · rw [Name.splitDetail_changeSignal]
    dsimp only
    rw [Instance.resolveSignal_notify]
    dsimp only
    split
    · exact reports_reply _ _
    · refine ⟨List.forall_mem_singleton.mpr trivial, fun e he => ?_⟩
      cases he
      rfl

theorem reports_notify : (w.notify i name).Reports w i (Name.canonical name)
    (Name.canonical name) := by
  unfold notify
  split
  · exact reports_reply _ _
  · split
    · exact reports_reply _ _
    · exact reports_reportChange

/-- Storing a value leaves the handlers alone. -/
theorem reportOf_store {x : Instance β} (hx : w.instance? i = some x) (property : String)
    (value : Value) : (w.modifyInstance i (·.store property value)).reportOf i name told =
      w.reportOf i name told := by
  unfold reportOf emissionOf
  rw [instance?_modifyInstance, if_pos rfl, hx]
  rfl

/-- Frames that report under a name, if at all, and among which no emission begins. -/
theorem reports_of_frames {p : Progress β} (hframes : ∀ f ∈ p.frames, f.Reports i name)
    (hnone : p.frames.filterMap Frame.emission? = []) : p.Reports w i name told :=
  ⟨hframes, fun e he => by cases hnone.symm.trans he⟩

theorem reports_writeProperty (value : Value)
    (hfiled : ∀ x, w.instance? i = some x → x.ofClass.Filed) :
    (w.writeProperty i name value).Reports w i (Name.canonical name) (Name.canonical name) := by
  unfold writeProperty
  cases hx : w.instance? i with
  | none => exact reports_reply _ _
  | some x =>
      dsimp only
      cases hwrite : x.admitWrite w.isA name value with
      | error e => exact reports_reply _ _
      | ok write =>
          rcases Instance.canonicalName_of_admitWrite (hfiled x hx) hwrite with
            ⟨callback, rfl⟩ | ⟨spec, hname, ⟨callback, rfl⟩ | ⟨notify, equality, effect, rfl⟩⟩
          · exact reports_of_frames (List.forall_mem_singleton.mpr ⟨rfl, rfl⟩) rfl
          · exact reports_of_frames (List.forall_mem_singleton.mpr ⟨rfl, hname⟩) rfl
          · refine storeValue_cases
              (P := fun p => p.Reports w i (Name.canonical name) (Name.canonical name)) w i x spec
              notify equality effect value ?_ ?_
            · refine ⟨List.forall_mem_cons.mpr ⟨trivial, List.forall_mem_singleton.mpr trivial⟩,
                fun e he => ?_⟩
              cases he
              rw [hname]
              exact reportOf_store hx _ _
            · exact reports_of_frames (List.forall_mem_singleton.mpr trivial) rfl

end World

theorem Progress.Reports.of_next {w : World β} {i : InstanceId} {name : String} {e : Emission β}
    {p : Progress β} (h : Emission.Turn w e p) : (∀ f ∈ p.frames, f.Reports i name) ∧
      (p.frames.filterMap Frame.emission?).length ≤ 1 := by
  cases h with
  | ends hs => exact ⟨fun f hf => (by cases hf), Nat.zero_le 1⟩
  | calls | settles | passes =>
      exact ⟨List.forall_mem_singleton.mpr trivial, Nat.le_refl 1⟩

/-- The frames of an operation that reports go on doing so; among them only a report that is due
begins an emission. -/
theorem Frame.Reports.resume {f : Frame β} {i : InstanceId} {name : String} (h : f.Reports i name)
    (w : World β) (reply : Reply β) : (∀ g ∈ (f.resume w reply).frames, g.Reports i name) ∧
      ∀ e, (f.resume w reply).frames.filterMap Frame.emission? = e :: f.emission?.toList →
        e = w.reportOf i name name := by
  cases f with
  | reportChange j reported =>
      obtain ⟨rfl, rfl⟩ := h
      exact ⟨World.reports_reportChange.frames, World.reports_reportChange.begins⟩
  | runEffect j property effect value =>
      unfold Frame.resume World.runEffect
      cases effect with
      | none => exact ⟨fun g hg => (by cases hg), fun e he => by cases he⟩
      | some callback =>
          exact ⟨List.forall_mem_singleton.mpr trivial, fun e he => by cases he⟩
  | finishWrite j => exact ⟨fun g hg => (by cases hg), fun e he => by cases he⟩
  | emission now =>
      have hnext : (∀ g ∈ (now.resume w reply).frames, g.Reports i name) ∧
          ((now.resume w reply).frames.filterMap Frame.emission?).length ≤ 1 := by
        rw [now.resume_eq]
        split
        · exact ⟨fun g hg => (by cases hg), Nat.zero_le 1⟩
        · exact Progress.Reports.of_next (Emission.turn_next _ _)
      refine ⟨hnext.1, fun e he => ?_⟩
      have hlength := hnext.2
      change (now.resume w reply).frames.filterMap Frame.emission? = [e, now] at he
      rw [he] at hlength
      exact absurd hlength (Nat.not_succ_le_self 1)
  | _ => exact h.elim

/-! ## Operations that report -/

/-- An operation that may report a change under a spelling of a name: it is asked for in this state,
and so many steps later, when it has its own next step, it begins the emission. -/
structure Machine.Notifies (client : Client σ β κ) (m : Machine σ β κ) (i : InstanceId)
    (name : String) (d : Nat) (e : Emission β) : Prop where
  asked : m.control = .perform (.notify i name) ∨
    (∃ value, m.control = .perform (.setProperty i name value)) ∨
    ∃ told, m.control = .perform (.emit i (changeSignal (some name)) [.string told])
  busy : ∀ k, 0 < k → k ≤ d → m.stack.length < (m.after client k).stack.length
  own : d = 0 ∨ (∃ reply, (m.after client d).control = .deliver reply) ∧
    (m.after client d).stack.length = m.stack.length + 1
  begins : (m.after client (d + 1)).emissions = e :: (m.after client d).emissions

namespace Machine

variable {client : Client σ β κ} {m : Machine σ β κ} {i : InstanceId} {name : String}

theorem Follows.emissions {p : Progress β} {stack : List (Layer β κ)} (h : m.Follows p stack) :
    m.emissions =
      p.frames.filterMap Frame.emission? ++ stack.filterMap Layer.emission? := by
  unfold Machine.emissions
  rw [h.stack, List.filterMap_append, List.filterMap_map]
  rfl

/-- What an operation that reports begins with. -/
theorem reports_of_asked (client : Client σ β κ)
    (hasked : m.control = .perform (.notify i name) ∨
      (∃ value, m.control = .perform (.setProperty i name value)) ∨
      ∃ told, m.control = .perform (.emit i (changeSignal (some name)) [.string told]))
    (hfiled : ∀ x, m.world.instance? i = some x → x.ofClass.Filed) :
    ∃ p told, (m.step client).Follows p m.stack ∧
      p.Reports m.world i (Name.canonical name) told ∧
      ((∀ args, m.control ≠ .perform (.emit i (changeSignal (some name)) args)) →
        told = Name.canonical name) := by
  rcases hasked with hm | ⟨value, hm⟩ | ⟨told, hm⟩
  · exact ⟨_, _, follows_perform client hm, World.reports_notify, fun _ => rfl⟩
  · exact ⟨_, _, follows_perform client hm, World.reports_writeProperty value hfiled, fun _ => rfl⟩
  · exact ⟨_, told, follows_perform client hm, World.reports_emit told, fun hnot => absurd hm (hnot _)⟩

/-- As long as an operation is in progress, its own frames are at the bottom of what is on the stack
above its caller. -/
theorem own_frames {p : Progress β} (hf : (m.step client).Follows p m.stack)
    (hframes : ∀ f ∈ p.frames, f.Reports i name) {k : Nat}
    (hbusy : ∀ j, 0 < j → j ≤ k + 1 → m.stack.length < (m.after client j).stack.length) :
    ∃ above f rest, (m.after client (k + 1)).stack =
        above ++ .operation f :: (rest.map .operation ++ m.stack) ∧
      ∀ g ∈ f :: rest, g.Reports i name := by
  have hnonempty {frames : List (Frame β)} {j : Nat} (hpos : 0 < j) (hj : j ≤ k + 1)
      (hs : (m.after client j).stack = frames.map .operation ++ m.stack)
      (hframes : ∀ g ∈ frames, g.Reports i name) :
      ∃ above f rest, (m.after client j).stack =
          above ++ .operation f :: (rest.map .operation ++ m.stack) ∧
        ∀ g ∈ f :: rest, g.Reports i name := by
    cases frames with
    | nil => exact absurd hs (stack_ne_of_busy (hbusy j hpos hj))
    | cons f rest => exact ⟨[], f, rest, hs, hframes⟩
  induction k with
  | zero => exact hnonempty (Nat.succ_pos 0) (Nat.le_refl _) hf.stack hframes
  | succ k ih =>
      obtain ⟨above, f, rest, hs, hreports⟩ := ih (fun j hpos hj => hbusy j hpos (Nat.le_succ_of_le hj))
        fun hpos hj => hnonempty hpos (Nat.le_succ_of_le hj)
      obtain ⟨hf, hrest⟩ := List.forall_mem_cons.mp hreports
      rcases stays_or_resumes client hs with ⟨above', hs'⟩ | ⟨reply, -, -, hresumes⟩
      · exact ⟨above', f, rest, hs', hreports⟩
      · refine hnonempty (Nat.succ_pos _) (Nat.le_refl _) ?_
          (List.forall_mem_append.mpr ⟨(hf.resume (m.after client (k + 1)).world reply).1, hrest⟩)
        rw [List.map_append, List.append_assoc]
        exact hresumes.stack

/-- **Every report notes the handlers of the canonical spelling.** What it tells them is that
spelling, unless it is an emission that was asked for with something else. -/
theorem Notifies.emission {d : Nat} {e : Emission β} (h : m.Notifies client i name d e)
    (hfiled : ∀ x, m.world.instance? i = some x → x.ofClass.Filed) :
    ∃ told, e = (m.after client d).world.reportOf i (Name.canonical name) told ∧
      ((∀ args, m.control ≠ .perform (.emit i (changeSignal (some name)) args)) →
        told = Name.canonical name) := by
  obtain ⟨p, told, hf, hreports, htold⟩ := reports_of_asked client h.asked hfiled
  cases d with
  | zero =>
      refine ⟨told, hreports.begins e ?_, htold⟩
      have hbegins : (m.step client).emissions = e :: m.emissions := h.begins
      rw [hf.emissions] at hbegins
      exact (List.append_left_inj m.emissions).mp hbegins
  | succ d =>
      obtain ⟨⟨reply, hm⟩, hlength⟩ := h.own.resolve_left (Nat.succ_ne_zero d)
      obtain ⟨above, f, rest, hs, hown⟩ := own_frames hf hreports.frames h.busy
      -- nothing is above the last frame of the operation
      have hlast : above = [] ∧ rest = [] := by
        have hheight := congrArg List.length hs
        simp only [List.length_append, List.length_cons, List.length_map] at hheight
        exact ⟨List.length_eq_zero_iff.mp (by omega), List.length_eq_zero_iff.mp (by omega)⟩
      obtain ⟨rfl, rfl⟩ := hlast
      rw [List.nil_append, List.map_nil, List.nil_append] at hs
      refine ⟨Name.canonical name, ?_, fun _ => rfl⟩
      refine ((hown f List.mem_cons_self).resume (m.after client (d + 1)).world reply).2 e ?_
      have hbegins : ((m.after client (d + 1)).step client).emissions =
          e :: (m.after client (d + 1)).emissions := h.begins
      rw [(follows_resume client hm hs).emissions] at hbegins
      refine (List.append_left_inj m.emissions).mp (hbegins.trans ?_)
      unfold Machine.emissions
      have hframe : (Layer.operation f : Layer β κ).emission? = f.emission? := rfl
      rw [hs, List.filterMap_cons, hframe]
      cases f.emission? <;> rfl

end Machine

/-! ## Reports begin -/

namespace World

variable {w : World β} {i : InstanceId} {x : Instance β} {name : String}

/-- An emission of the change signal with one text is not refused. -/
theorem emit_changeSignal (hx : w.instance? i = some x) (told : String) :
    w.emit i (changeSignal (some name)) [.string told] =
      .proceed w [.emission (w.reportOf i (Name.canonical name) told)] := by
  unfold emit
  rw [hx]
  dsimp only
  rw [Name.splitDetail_changeSignal]
  dsimp only
  rw [Instance.resolveSignal_notify]
  rfl

theorem notify_eq (hx : w.instance? i = some x)
    (hfound : x.ofClass.findProperty? name ≠ none ∨ x.ofClass.findSetter? name ≠ none) :
    w.notify i name = w.reportChange i (Name.canonical name) := by
  unfold notify
  rw [hx]
  refine if_neg fun hnone => ?_
  rw [Bool.and_eq_true, Option.isNone_iff_eq_none, Option.isNone_iff_eq_none] at hnone
  exact hfound.elim (· hnone.1) (· hnone.2)

end World

namespace Machine

variable {client : Client σ β κ} {m : Machine σ β κ} {i : InstanceId} {x : Instance β}
  {name : String}

theorem notifies_of_emit (hx : m.world.instance? i = some x) {told : String}
    (hm : m.control = .perform (.emit i (changeSignal (some name)) [.string told])) :
    ∃ e, m.Notifies client i name 0 e := by
  have hf : (m.step client).Follows (m.world.emit i _ _) m.stack := follows_perform client hm
  rw [World.emit_changeSignal hx] at hf
  exact ⟨_, .inr (.inr ⟨told, hm⟩), fun k hpos hk => absurd hpos (Nat.not_lt.mpr hk), .inl rfl,
    hf.emissions⟩

theorem notifies_of_notify (hx : m.world.instance? i = some x)
    (hm : m.control = .perform (.notify i name))
    (hfound : x.ofClass.findProperty? name ≠ none ∨ x.ofClass.findSetter? name ≠ none) :
    ∃ e, m.Notifies client i name 0 e := by
  have hf : (m.step client).Follows (m.world.notify i name) m.stack := follows_perform client hm
  rw [World.notify_eq hx hfound] at hf
  exact ⟨_, .inl hm, fun k hpos hk => absurd hpos (Nat.not_lt.mpr hk), .inl rfl, hf.emissions⟩

/-- A write through a setter reports when the setter has returned. -/
theorem notifies_of_setter (hx : m.world.instance? i = some x) {value : Value}
    (hm : m.control = .perform (.setProperty i name value)) {callback : β}
    (hwrite : x.admitWrite m.world.isA name value = .ok (.setter callback) ∨
      ∃ spec, x.admitWrite m.world.isA name value = .ok (.computed spec callback)) {n : Nat}
    (hbusy : ∀ k, 0 < k → k ≤ n → m.stack.length < (m.after client k).stack.length)
    (hover : (m.after client (n + 1)).stack = m.stack) :
    ∃ d, d ≤ n ∧ ∃ e, m.Notifies client i name d e := by
  have hf : (m.step client).Follows (m.world.writeProperty i name value) m.stack :=
    follows_perform client hm
  obtain ⟨inv, reported, hp⟩ : ∃ inv reported, m.world.writeProperty i name value =
      .invoke m.world callback inv [.reportChange i reported] := by
    unfold World.writeProperty
    rw [hx]
    dsimp only
    rcases hwrite with hwrite | ⟨spec, hwrite⟩ <;> rw [hwrite] <;> exact ⟨_, _, rfl⟩
  rw [hp] at hf
  have hwaits (k : Nat) (hk : k ≤ n) :
      (∃ above, (m.after client (k + 1)).stack =
          above ++ .operation (.reportChange i reported) :: m.stack) ∨
        ∃ d, d ≤ k ∧ ∃ e, m.Notifies client i name d e := by
    induction k with
    | zero => exact .inl ⟨[], hf.stack⟩
    | succ k ih =>
        rcases ih (Nat.le_of_succ_le hk) with ⟨above, hs⟩ | ⟨d, hd, hnotifies⟩
        · rcases stays_or_resumes client hs with hstays | ⟨reply, rfl, hdeliver, hresumes⟩
          · exact .inl hstays
          · refine .inr ⟨k + 1, Nat.le_refl _,
              (m.after client (k + 1)).world.reportOf i reported reported, .inr (.inl ⟨value, hm⟩),
              fun j hpos hj => hbusy j hpos (Nat.le_trans hj hk),
              .inr ⟨⟨reply, hdeliver⟩, by rw [hs]; rfl⟩, ?_⟩
            have hbefore : (m.after client (k + 1)).emissions = m.emissions := by
              unfold Machine.emissions
              rw [hs]
              rfl
            rw [hbefore]
            exact hresumes.emissions
        · exact .inr ⟨d, Nat.le_succ_of_le hd, hnotifies⟩
  rcases hwaits n (Nat.le_refl n) with ⟨above, hs⟩ | hnotifies
  · have hheight := congrArg List.length (hs.symm.trans hover)
    simp only [List.length_append, List.length_cons] at hheight
    omega
  · exact hnotifies

end Machine

/-! ## Reports go to their handlers -/

section

variable {client : Client σ β κ} {m : Machine σ β κ} {e now : Emission β}
  {stack above : List (Layer β κ)} {n : Nat} {h : Handler β}

/-- A handler that has its turn was noted. -/
theorem Emission.Stands.mem_of_turn? (hs : e.Stands client m stack n above now)
    (hturn : (m.after client n).turn? client stack.length = some h) : h ∈ e.remaining := by
  unfold Machine.turn? at hturn
  split at hturn
  · next e' reply hhears =>
      split at hturn
      · obtain ⟨-, below, hbelow, hlength⟩ := Machine.hearing?_eq_some.mp hhears
        have hlayers := hs.layers
        have hnil : above = [] := by
          have hheight := congrArg List.length (hlayers.symm.trans hbelow)
          simp only [List.length_append, List.length_cons] at hheight
          exact List.length_eq_zero_iff.mp (by omega)
        rw [hnil, hbelow] at hlayers
        cases hlayers
        rw [hs.remaining]
        exact List.mem_append_right _ (List.mem_of_mem_head? hturn)
      · cases hturn
  · cases hturn

/-- An emission that no answer ends is over when all handlers have had their turns. -/
theorem Emission.Stands.turns_of_over (hreach : Reachable client (m.after client n))
    (hs : e.Stands client m stack n above now) (hlast : ∀ a, e.accumulator.ends a = false)
    (hlength : (m.after client (n + 1)).stack.length = stack.length) :
    m.turns client stack.length n = e.remaining := by
  have hover : (m.after client (n + 1)).stack = stack := by
    rcases (hs.step hreach).2 with ⟨above', now', hstands⟩ | hgone
    · have hheight := congrArg List.length hstands.layers
      simp only [List.length_append, List.length_cons] at hheight
      omega
    · exact hgone
  by_cases hgoes : above = [] ∧ ∃ reply, (m.after client n).control = .deliver reply
  · obtain ⟨rfl, reply, hm⟩ := hgoes
    have hnone := hs.turn?_of_gone hm hover
    cases (hs.goesOn hreach hm).1 with
    | calls g hturn => cases hnone.symm.trans hturn
    | passes g hturn => cases hnone.symm.trans hturn
    | returns hturn hend =>
        rcases hend with ⟨hall, -⟩ | ⟨before, a, -, hends, -⟩
        · exact hall
        · cases (hlast a).symm.trans hends
  · -- what happens above its frame does not end an emission
    obtain ⟨above', hlayers, -⟩ := hs.phase.step client hs.layers
      fun hnil reply hm => hgoes ⟨hnil, reply, hm⟩
    have hheight := congrArg List.length (hlayers.symm.trans hover)
    simp only [List.length_append, List.length_cons] at hheight
    omega

/-- In its turn, a handler of changes runs its callback with what the report tells, if it is still
connected. -/
theorem Emission.Stands.invokes_of_turn? (hreach : Reachable client (m.after client n))
    (hs : e.Stands client m stack n above now) {callback : β} {told : String}
    (hargs : e.args = [.string told])
    (htarget : h.target = .callback callback ∨ h.target = .change callback)
    (hturn : (m.after client n).turn? client stack.length = some h)
    (hconnected : (m.after client n).world.Connected e.owner h) :
    (m.after client (n + 1)).control =
      .invoke callback { role := .handler h.id, self := some e.owner, args := [.string told] } := by
  obtain ⟨heeded, hcall⟩ := HandlerTarget.call?_of_told htarget told
  have hhears : (m.after client n).hearing? stack.length ≠ none := by
    intro hnone
    unfold Machine.turn? at hturn
    rw [hnone] at hturn
    cases hturn
  cases ((hs.step hreach).1.goesOn hhears).2 with
  | returns hnone => cases hnone.symm.trans hturn
  | passes g hturn' hopen hgone =>
      cases hturn'.symm.trans hturn
      exact absurd hconnected hgone
  | calls g hturn' hopen hconnected' hcalls =>
      cases hturn'.symm.trans hturn
      cases hcalls with
      | settles event o hout hw hc =>
          -- a handler of changes settles no event
          rcases htarget with htarget | htarget <;> rw [htarget] at hout <;> cases hout
      | runs callback' args heeded' hcall' hc =>
          rw [hargs, hcall] at hcall'
          cases hcall'
          exact hc

theorem Machine.turn?_of_called? {height : Nat} (hcalled : m.called? client height = some h) :
    m.turn? client height = some h := by
  unfold called? at hcalled
  split at hcalled
  · exact hcalled
  · cases hcalled

/-- When an emission that no answer ends is over, a handler of changes that stayed connected until its
turn was called exactly if it was noted, and with what the report tells. -/
theorem Emission.Stands.callees_of_told (hreach : ∀ k, Reachable client (m.after client k))
    (hstands : e.Stands client m stack 0 [] e) {callback : β} {told : String}
    (hargs : e.args = [.string told])
    (htarget : h.target = .callback callback ∨ h.target = .change callback)
    (hlast : ∀ a, e.accumulator.ends a = false)
    (hlive : ∀ j, j ≤ n → stack.length < (m.after client j).stack.length)
    (hover : (m.after client (n + 1)).stack.length = stack.length)
    (hstays : ∀ j, j ≤ n → (m.after client j).turn? client stack.length = some h →
      (m.after client j).world.Connected e.owner h) :
    (h ∈ m.callees client stack.length (n + 1) ↔ h ∈ e.remaining) ∧
      ∀ j, j ≤ n → (m.after client j).called? client stack.length = some h →
        (m.after client (j + 1)).control = .invoke callback
          { role := .handler h.id, self := some e.owner, args := [.string told] } := by
  have hinvokes {j : Nat} (hj : j ≤ n)
      (hturn : (m.after client j).turn? client stack.length = some h) :
      (m.after client (j + 1)).control = .invoke callback
        { role := .handler h.id, self := some e.owner, args := [.string told] } := by
    obtain ⟨above, now, hnow⟩ := hstands.of_live hreach fun k hk => hlive k (Nat.le_trans hk hj)
    exact hnow.invokes_of_turn? (hreach j) hargs htarget hturn (hstays j hj hturn)
  refine ⟨⟨fun hmem => ?_, fun hmem => ?_⟩, fun j hj hcalled =>
    hinvokes hj (Machine.turn?_of_called? hcalled)⟩
  · obtain ⟨j, hj, hcalled⟩ := List.mem_filterMap.mp hmem
    have hle := Nat.le_of_lt_succ (List.mem_range.mp hj)
    obtain ⟨above, now, hnow⟩ := hstands.of_live hreach fun k hk => hlive k (Nat.le_trans hk hle)
    exact hnow.mem_of_turn? (Machine.turn?_of_called? hcalled)
  · obtain ⟨above, now, hnow⟩ := hstands.of_live hreach hlive
    rw [← hnow.turns_of_over (hreach n) hlast hover] at hmem
    obtain ⟨j, hj, hturn⟩ := List.mem_filterMap.mp hmem
    have hlt := List.mem_range.mp hj
    refine List.mem_filterMap.mpr ⟨j, List.mem_range.mpr (Nat.lt_succ_of_lt hlt), ?_⟩
    unfold Machine.called?
    rw [show ((m.after client j).step client).control = _ from hinvokes (Nat.le_of_lt hlt) hturn]
    exact hturn

/-- The report of a change notes a handler of changes exactly if the spellings agree. -/
theorem World.mem_reportOf_iff {w : World β} {i : InstanceId} {name? : Option String}
    {name : String} (told : String) (hconnected : w.Connected i h)
    (haddress : h.address = (notifySignal, name?.map Name.canonical)) :
    h ∈ (w.reportOf i (Name.canonical name) told).remaining ↔
      ∀ own, name? = some own → Name.canonical own = Name.canonical name := by
  obtain ⟨x, hx, hmem⟩ := hconnected
  unfold reportOf emissionOf
  rw [hx]
  show h ∈ x.handlers.filter _ ↔ _
  rw [List.mem_filter, and_iff_right hmem, Handler.matches_iff haddress]

end

/-- **The spelling of a notification does not matter.** An emission of the detailed change signal with
one text is never refused, and neither is asking for a report under a name for which a property or a
setter is found; a write through a setter has reported when it is over.

Every report under a name, whichever of these begins it, or a write to a stored property, tells its
handlers the canonical spelling of the name, unless an emission was asked for with something else; it
is also the canonical name of the property that is found. A handler of changes that is connected when
the report begins, and still when its turn comes, is called with that exactly if it was connected for
a name of the same canonical spelling, or for all names. -/
theorem notification_spelling_is_canonical (client : Client σ β κ) (state : σ) (program : β) :
    let m (k : Nat) : Machine σ β κ := (Machine.initial state program).after client k
    (∀ q i name x, (m q).world.instance? i = some x →
      (∀ told, (m q).control = .perform (.emit i (changeSignal (some name)) [.string told]) →
        ∃ e, (m q).Notifies client i name 0 e) ∧
      ((m q).control = .perform (.notify i name) →
        x.ofClass.findProperty? name ≠ none ∨ x.ofClass.findSetter? name ≠ none →
        ∃ e, (m q).Notifies client i name 0 e) ∧
      ∀ value callback n, (m q).control = .perform (.setProperty i name value) →
        (x.admitWrite (m q).world.isA name value = .ok (.setter callback) ∨
          ∃ spec, x.admitWrite (m q).world.isA name value = .ok (.computed spec callback)) →
        (∀ k, 0 < k → k ≤ n → (m q).stack.length < ((m q).after client k).stack.length) →
        ((m q).after client (n + 1)).stack = (m q).stack →
        ∃ d, d ≤ n ∧ ∃ e, (m q).Notifies client i name d e) ∧
    ∀ p q i name? callback h name d e, (m p).Listens client i name? callback h →
      (m q).Notifies client i name d e →
      (∀ x, (m q).world.instance? i = some x → x.ofClass.Built) →
      (m (q + d)).world.Connected i h →
      (∀ x property, (m q).world.instance? i = some x →
        x.ofClass.findProperty? name = some property →
        property.spec.canonicalName = Name.canonical name) ∧
      ∃ told stack, (m (q + (d + 1))).stack = .operation (.emission e) :: stack ∧
        ((∀ args, (m q).control ≠ .perform (.emit i (changeSignal (some name)) args)) →
          told = Name.canonical name) ∧
        ∀ n, (∀ j, j ≤ n → stack.length < (m (q + (d + 1) + j)).stack.length) →
          (m (q + (d + 1) + (n + 1))).stack.length = stack.length →
          (∀ j, j ≤ n → (m (q + (d + 1) + j)).turn? client stack.length = some h →
            (m (q + (d + 1) + j)).world.Connected i h) →
          (h ∈ (m (q + (d + 1))).callees client stack.length (n + 1) ↔
            ∀ own, name? = some own → Name.canonical own = Name.canonical name) ∧
          ∀ j, j ≤ n → (m (q + (d + 1) + j)).called? client stack.length = some h →
            (m (q + (d + 1) + (j + 1))).control = .invoke callback
              { role := .handler h.id, self := some i, args := [.string told] } := by
  intro m
  have hreach (k : Nat) : Reachable client (m k) := (Reachable.initial state program).after k
  have hadd (q k : Nat) : m (q + k) = (m q).after client k := Machine.after_add client _ q k
  refine ⟨fun q i name x hx => ⟨fun told => Machine.notifies_of_emit hx,
    Machine.notifies_of_notify hx, fun value callback n hm hwrite =>
      Machine.notifies_of_setter hx hm hwrite⟩,
    fun p q i name? callback h name d e hlistens hnotifies hbuilt hconnected => ⟨?_, ?_⟩⟩
  · exact fun x property hx hfind => (hbuilt x hx).filed.canonicalName_eq hfind
  obtain ⟨haddress, htarget⟩ := hlistens.handler (hreach p)
  obtain ⟨told, he, htold⟩ := hnotifies.emission fun x hx => (hbuilt x hx).filed
  have hnew := hnotifies.begins
  obtain ⟨stack, hs⟩ := (Machine.begins_of_emissions client hnew).1.stack
  have hstands := (Machine.begins_of_emissions client hnew).1.stands he hs
  rw [← hadd] at he
  have hargs : e.args = [.string told] := he ▸ rfl
  have howner : e.owner = i := he ▸ rfl
  have hlast : ∀ a, e.accumulator.ends a = false := fun a => he ▸ rfl
  refine ⟨told, stack, (hadd q (d + 1)).symm ▸ hs, htold, fun n hlive hover hstays => ?_⟩
  have hbegun : ((m q).after client d).step client = m (q + (d + 1)) := (hadd q (d + 1)).symm
  rw [hbegun] at hstands
  simp only [hadd (q + (d + 1))] at hlive hover hstays ⊢
  obtain ⟨hcallees, hinvokes⟩ := hstands.callees_of_told (fun k => (hreach _).after k) hargs htarget
    hlast hlive hover (howner ▸ hstays)
  refine ⟨?_, howner ▸ hinvokes⟩
  rw [← World.mem_reportOf_iff told hconnected haddress, ← he]
  exact hcallees

/-! ## A run -/

deriving instance DecidableEq for HandlerTarget
deriving instance DecidableEq for Handler

/-- A class with a property whose name has an underscore. -/
def toggle : Except ClassError (ClassBuilder Nat) :=
  { className := "Toggle" : ClassBuilder Nat }.stored .builtin "is_on" .string {} none none none

def toggleClass : Class Nat :=
  match toggle.bind (·.finalize .builtin) with
  | .ok (_, c) => c
  | .error _ => .simple .empty [] none

theorem toggleClass_built : toggleClass.Built := by
  unfold toggleClass
  split
  · next r c hc =>
    obtain ⟨b, hb, hfinal⟩ := bind_eq_ok.mp hc
    refine .finalize (.stored (.new rfl rfl) hb) (fun parent hparent => ?_) hfinal
    rw [ClassBuilder.parent_of_stored hb] at hparent
    cases hparent
  · next e he =>
    have hok : (toggle.bind (·.finalize .builtin)).isOk = true := by decide +kernel
    rw [he] at hok
    cases hok

/-- A program that listens for changes of two names, the first of which is another spelling of the
property of a toggle, and writes that property. -/
def toggler : Client Unit Nat (Routine Nat) :=
  .ofRoutines
    (fun
      | 0 => { acts := [.command (.newContext { clock := .manual }),
          .command (.construct { ofClass := toggleClass, context := ⟨0⟩ }),
          .command (.connect ⟨1⟩ "notify::is-on" 1), .command (.connectNotify ⟨1⟩ (some "is_up") 1),
          .command (.setProperty ⟨1⟩ "is_on" (.string "yes"))] }
      | _ => {})
    [.object ⟨1⟩]

/-- A state of the run of `toggler`. -/
def togglerAfter (n : Nat) : Machine Unit Nat (Routine Nat) :=
  (Machine.initial () 0).after toggler n

/-- The handlers of `toggler`. -/
def onHandler : Handler Nat :=
  { id := ⟨0⟩, signal := "notify", detail := some "is-on", target := .callback 1 }

def upHandler : Handler Nat :=
  { id := ⟨1⟩, signal := "notify", detail := some "is-up", target := .change 1 }

/-- Whether an instance has these handlers. -/
def Machine.hasHandlers (m : Machine σ Nat κ) (i : InstanceId) (hs : List (Handler Nat)) : Bool :=
  (m.world.instance? i).map (·.handlers) = some hs

theorem Machine.connected_of_hasHandlers {m : Machine σ Nat κ} {i : InstanceId}
    {hs : List (Handler Nat)} (h : m.hasHandlers i hs = true) {g : Handler Nat} (hg : g ∈ hs) :
    m.world.Connected i g := by
  obtain ⟨x, hx, rfl⟩ := Option.map_eq_some_iff.mp (of_decide_eq_true h)
  exact ⟨x, hx, hg⟩

set_option maxRecDepth 100000 in
/-- What the run of `toggler` comes to. -/
theorem toggler_runs :
    (togglerAfter 9).hasHandlers ⟨1⟩ [onHandler] = true ∧
    (togglerAfter 11).hasHandlers ⟨1⟩ [onHandler, upHandler] = true ∧
    (togglerAfter 12).hasHandlers ⟨1⟩ [onHandler, upHandler] = true ∧
    (togglerAfter 12).emissions.length = 0 ∧ (togglerAfter 13).emissions.length = 1 ∧
    (togglerAfter 13).stack.length = 3 ∧ (togglerAfter 17).stack.length = 2 ∧
    (togglerAfter 13).throughout toggler (fun m => decide (2 < m.stack.length) &&
      m.hasHandlers ⟨1⟩ [onHandler, upHandler]) 4 = true := by
  decide +kernel

theorem toggler_listens_on : (togglerAfter 8).Listens toggler ⟨1⟩ (some "is-on") 1 onHandler := by
  obtain ⟨hfirst, -⟩ := toggler_runs
  exact ⟨.inl rfl, rfl, Machine.connected_of_hasHandlers hfirst List.mem_cons_self⟩

theorem toggler_listens_up : (togglerAfter 10).Listens toggler ⟨1⟩ (some "is_up") 1 upHandler := by
  obtain ⟨-, hsecond, -⟩ := toggler_runs
  exact ⟨.inr rfl, rfl, Machine.connected_of_hasHandlers hsecond (by simp)⟩

/-- The write of `toggler` begins an emission. -/
theorem toggler_notifies : ∃ e, (togglerAfter 12).Notifies toggler ⟨1⟩ "is_on" 0 e := by
  obtain ⟨-, -, -, hnone, hone, -⟩ := toggler_runs
  obtain ⟨e, he⟩ := List.length_eq_one_iff.mp hone
  refine ⟨e, .inr (.inl ⟨_, rfl⟩), fun k hpos hk => absurd hpos (Nat.not_lt.mpr hk), .inl rfl, ?_⟩
  rw [Machine.after, List.length_eq_zero_iff.mp hnone]
  exact he

set_option maxRecDepth 100000 in
theorem toggler_ofClass_built (x : Instance Nat)
    (hx : (togglerAfter 12).world.instance? ⟨1⟩ = some x) : x.ofClass.Built := by
  have hclass : ((togglerAfter 12).world.instance? ⟨1⟩).map (·.ofClass) = some toggleClass := by rfl
  rw [hx, Option.map_some, Option.some.injEq] at hclass
  rw [hclass]
  exact toggleClass_built

/-- The handlers of `toggler` stay connected while the emission is in progress. -/
theorem toggler_handlers {j : Nat} (hj : j ≤ 3) : 2 < (togglerAfter (13 + j)).stack.length ∧
    (togglerAfter (13 + j)).hasHandlers ⟨1⟩ [onHandler, upHandler] = true := by
  obtain ⟨-, -, -, -, -, -, -, hrun⟩ := toggler_runs
  have hchecked := Machine.throughout_iff.mp hrun j (Nat.lt_succ_of_le hj)
  rw [togglerAfter, ← Machine.after_add, Bool.and_eq_true, decide_eq_true_eq] at hchecked
  exact hchecked

set_option maxRecDepth 100000 in
/-- The write of `toggler` calls the handler that is connected under another spelling of the name,
and not the other handler. -/
theorem notification_spelling_is_canonical_toggler :
    ∃ e stack, (togglerAfter 12).Notifies toggler ⟨1⟩ "is_on" 0 e ∧
      (togglerAfter 13).stack = .operation (.emission e) :: stack ∧
      onHandler ∈ (togglerAfter 13).callees toggler stack.length 4 ∧
      upHandler ∉ (togglerAfter 13).callees toggler stack.length 4 ∧
      ∀ j, j ≤ 3 → (togglerAfter (13 + j)).called? toggler stack.length = some onHandler →
        (togglerAfter (13 + (j + 1))).control = .invoke 1
          { role := .handler ⟨0⟩, self := some ⟨1⟩, args := [.string "is-on"] } := by
  obtain ⟨e, hnotifies⟩ := toggler_notifies
  obtain ⟨-, -, hboth, -, -, hheight, hover, -⟩ := toggler_runs
  obtain ⟨-, hcontract⟩ := notification_spelling_is_canonical toggler () 0
  obtain ⟨-, told, stack, hs, htold, hcalls⟩ := hcontract 8 12 ⟨1⟩ (some "is-on") 1 onHandler
    "is_on" 0 e toggler_listens_on hnotifies toggler_ofClass_built
    (Machine.connected_of_hasHandlers hboth List.mem_cons_self)
  obtain ⟨-, told', stack', hs', -, hcalls'⟩ := hcontract 10 12 ⟨1⟩ (some "is_up") 1 upHandler
    "is_on" 0 e toggler_listens_up hnotifies toggler_ofClass_built
    (Machine.connected_of_hasHandlers hboth (by simp))
  obtain ⟨-, rfl⟩ := List.cons.inj (hs.symm.trans hs')
  have hlength : stack.length = 2 := by
    have hthree := hheight
    rw [show (togglerAfter 13).stack = _ from hs] at hthree
    exact Nat.succ.inj hthree
  have hlive (j : Nat) (hj : j ≤ 3) : stack.length < (togglerAfter (13 + j)).stack.length :=
    hlength ▸ (toggler_handlers hj).1
  obtain ⟨hin, htells⟩ := hcalls 3 hlive (hover.trans hlength.symm) fun j hj _ =>
    Machine.connected_of_hasHandlers (toggler_handlers hj).2 List.mem_cons_self
  obtain ⟨hout, -⟩ := hcalls' 3 hlive (hover.trans hlength.symm) fun j hj _ =>
    Machine.connected_of_hasHandlers (toggler_handlers hj).2 (by simp)
  obtain rfl : told = "is-on" := by
    refine (htold fun args hemit => ?_).trans (by decide +kernel)
    have hm : (togglerAfter 12).control = .perform (.setProperty ⟨1⟩ "is_on" (.string "yes")) := by
      rfl
    cases hm.symm.trans hemit
  refine ⟨e, stack, hnotifies, hs, hin.mpr ?_, fun hmem => ?_, htells⟩
  · rintro own ⟨⟩
    cbv
  · have hsame := hout.mp hmem "is_up" rfl
    revert hsame
    decide +kernel

end ObjectSystem
