import ObjectSystem.Proofs.Milestones
import ObjectSystem.Proofs.Orderly

/-!
# An instance in the making

While an instance is made, its construction is on the stack and keeps it alive
(`Machine.Making.step`). So when a construction replies its instance, the instance has been there
all the time since it was prepared, and what happened to it is what the commands did that were
performed meanwhile (`Machine.Made`).
-/

namespace ObjectSystem

variable {σ β κ : Type}

open Machine (Reachable)

namespace Machine

variable {client : Client σ β κ} {m : Machine σ β κ} {i : InstanceId} {base : List (Layer β κ)}

/-- The construction of an instance that is there is in progress on some layers. -/
def Making (i : InstanceId) (base : List (Layer β κ)) (m : Machine σ β κ) : Prop :=
  m.world.values? i ≠ none ∧
    ∃ above f, f.site? = some i ∧ m.stack = above ++ .operation f :: base

/-- How the construction of an instance ends: if it replies an instance, then this one, and it is
there. -/
def Delivers (i : InstanceId) (base : List (Layer β κ)) (m : Machine σ β κ) : Prop :=
  m.stack = base ∧ ∃ reply, m.control = .deliver reply ∧
    ∀ j, reply = .object j → j = i ∧ m.world.values? i ≠ none

namespace Making

theorem length_lt (h : Making i base m) : base.length < m.stack.length := by
  obtain ⟨-, above, f, -, hs⟩ := h
  simp [hs]
  omega

/-- As long as its construction is on the stack, the instance lives on. -/
theorem stays (halive : m.world.values? i ≠ none) {above : List (Layer β κ)} {f : Frame β}
    (hsite : f.site? = some i) (hs : (m.step client).stack = above ++ .operation f :: base) :
    Making i base (m.step client) := by
  refine ⟨alive_step halive (held_of_site hsite ?_), above, f, hsite, hs⟩
  rw [hs]
  exact List.mem_append_right _ List.mem_cons_self

/-- A construction goes on, or it ends with a reply. -/
theorem step (client : Client σ β κ) (h : Making i base m) :
    Making i base (m.step client) ∨ Delivers i base (m.step client) := by
  obtain ⟨halive, above, f, hsite, hs⟩ := h
  rcases stays_or_resumes client hs with ⟨above', hs'⟩ | ⟨told, rfl, hm, hf⟩
  · exact .inl (stays halive hsite hs')
  have hgoes {g : Frame β} (hsite : g.site? = some i)
      (hs : (m.step client).stack = .operation g :: base) : Making i base (m.step client) :=
    stays halive hsite (hs.trans (List.nil_append _).symm)
  have hends {reply : Reply β} (hs : (m.step client).stack = base)
      (hc : (m.step client).control = .deliver reply)
      (hreply : ∀ j, reply ≠ .object j) : Delivers i base (m.step client) :=
    ⟨hs, reply, hc, fun j hj => absurd hj (hreply j)⟩
  cases f with
  | constructing j properties =>
    cases hsite
    change (m.step client).Follows (m.world.continueConstructing i properties told) base at hf
    unfold World.continueConstructing at hf
    split at hf
    · exact .inr (hends hf.stack hf.control fun _ h => by cases h)
    · split at hf
      · exact .inl (hgoes rfl hf.stack)
      · split at hf
        · exact .inr (hends hf.stack hf.control fun _ h => by cases h)
        · exact .inl (hgoes rfl hf.stack)
  | initializing j hooks =>
    cases hsite
    change (m.step client).Follows (m.world.continueInitializing i hooks) base at hf
    unfold World.continueInitializing at hf
    split at hf
    · exact .inl (hgoes rfl hf.stack)
    · split at hf
      · exact .inr (hends hf.stack hf.control fun _ h => by cases h)
      · -- the reply holds the instance
        refine .inr ⟨hf.stack, _, hf.control, fun j hj => ?_⟩
        cases hj
        refine ⟨rfl, alive_step halive (held_of_control ?_)⟩
        rw [hf.control]
        exact List.mem_cons_self
  | _ => cases hsite

end Making

/-- A construction that replies an instance: it has prepared this instance first of all, and the
instance is there from then on. -/
structure Made (client : Client σ β κ) (m : Machine σ β κ) (con : Construction β) (i : InstanceId)
    (k : Nat) : Prop where
  reach : Reachable client m
  asks : m.control = .perform (.construct con)
  pos : 0 < k
  eq : i = ⟨m.world.nextInstance⟩
  prepares : (m.advance client).world = m.world.prepared con con.preparations
  given : ∀ j, 0 < j → i.number < (m.after client j).world.nextInstance
  alive : (m.after client k).world.values? i ≠ none

section
variable {con : Construction β} {k : Nat}

/-- **A construction that replies an instance has made it.** -/
theorem Reachable.made (hreach : Reachable client m) (hm : m.control = .perform (.construct con))
    (hanswers : m.Answers client (.construct con) (.object i) k) : Made client m con i k := by
  have hclass : con.ofClass.own.flags.isAbstract = false := by
    by_contra habstract
    have hfails := fails_of_abstract hreach hm (Bool.eq_true_of_not_eq_false habstract)
    cases (hfails.1.unique hanswers).1
  have hchildren : ∀ child ∈ con.children, con.ofClass.declaresChild child.1 = true := by
    by_contra hsome
    -- the construction ends at the first child that is not declared
    have hfind : (con.children.find? fun child => !con.ofClass.declaresChild child.1).isSome := by
      rw [List.find?_isSome]
      simpa using hsome
    obtain ⟨⟨name, child⟩, hfirst⟩ := Option.isSome_iff_exists.mp hfind
    obtain ⟨hname, known, others, hsplit, hknown⟩ := List.find?_eq_some_iff_append.mp hfirst
    have hends := ends_at_child (c := con.context) hreach hm hclass hsplit
      (fun child hchild => by simpa using hknown child hchild) (by simpa using hname)
    cases (hends.2.1.unique hanswers).1
  obtain ⟨hadvance, hhouses⟩ := follows_construct hreach hm hclass hchildren
  have hf := follows_of_advance client hadvance
  have hgiven (j : Nat) (hj : 0 < j) :
      m.world.nextInstance < (m.after client j).world.nextInstance := by
    have hfirst : (m.after client 1).world.nextInstance = m.world.nextInstance + 1 :=
      hf.world.nextInstance.trans (m.world.calm_prepared con con.preparations).nextInstance
    have hmono := (ages_after client m (show 1 ≤ j from hj)).next
    rw [hfirst] at hmono
    exact hmono
  have hmaking : Making ⟨m.world.nextInstance⟩ m.stack (m.step client) := by
    obtain ⟨x, hx, -⟩ := hhouses
    refine ⟨?_, [], _, rfl, hf.stack⟩
    rw [World.values?_eq hx]
    exact Option.some_ne_none _
  have hasking := asking_eq hm
  have hdelivers := hanswers.ends
    (P := fun j => Making ⟨m.world.nextInstance⟩ m.stack (m.after client j))
    (Q := fun j => Delivers ⟨m.world.nextInstance⟩ m.stack (m.after client j))
    (.inl hmaking) (fun j hj => hj.step client)
    (fun j hj => by rw [hasking]; exact hj.length_lt) (fun j hj => by rw [hasking]; exact hj.1)
  obtain ⟨-, reply, hcontrol, hreply⟩ := hdelivers
  have hreplies : reply = .object i := by
    have hanswer := hanswers.control
    rw [hasking, hcontrol] at hanswer
    exact Control.deliver.inj hanswer
  obtain ⟨rfl, halive⟩ := hreply i hreplies
  exact ⟨hreach, hm, hanswers.pos, rfl, congrArg Machine.world hadvance, hgiven, halive⟩

namespace Made

variable (h : Made client m con i k)
include h

theorem ne_next {j : Nat} (hj : 0 < j) : i ≠ ⟨(m.after client j).world.nextInstance⟩ := by
  have hlt := h.given j hj
  rintro rfl
  exact Nat.lt_irrefl _ hlt

/-- The instance is there all the time. -/
theorem fitted {n : Nat} (hpos : 0 < n) (hn : n ≤ k) :
    ∃ x, (m.after client n).world.fittings i = some x := by
  induction hn using Nat.decreasingInduction with
  | self =>
    obtain ⟨x, hx⟩ := World.exists_instance h.alive
    exact ⟨x.fittings, World.fittings_eq hx⟩
  | of_succ n _ ih =>
    obtain ⟨y, hy⟩ := ih (Nat.succ_pos n)
    obtain ⟨x, hx, -⟩ := (h.reach.after n).fittings_step (h.ne_next hpos) hy
    exact ⟨x, hx⟩

/-- What holds of the instance when it is prepared, and is kept by whatever is done to it in so many
steps, holds after them. -/
theorem run {P : Nat → Fittings β → Prop} {n : Nat} (hpos : 0 < n) (hn : n ≤ k)
    (hfirst : ∀ x, (m.world.prepared con con.preparations).fittings i = some x → P 1 x)
    (hstep : ∀ j, 0 < j → j < n → ∀ x, (m.after client j).world.fittings i = some x → P j x →
      P (j + 1) ((m.after client j).control.refit (m.after client j).world i x)) :
    ∃ x, (m.after client n).world.fittings i = some x ∧ P n x := by
  have hkeeps (j : Nat) (hj : j < n) {y : Fittings β}
      (hy : (m.after client (j + 1)).world.fittings i = some y) : P (j + 1) y := by
    induction j generalizing y with
    | zero =>
      refine hfirst y ?_
      rw [← h.prepares]
      exact h.reach.fittings_of_step hy
    | succ j ih =>
      obtain ⟨x, hx, rfl⟩ :=
        (h.reach.after (j + 1)).fittings_step (h.ne_next (Nat.succ_pos j)) hy
      exact hstep (j + 1) (Nat.succ_pos j) hj x hx (ih (Nat.lt_of_succ_lt hj) hx)
  obtain ⟨x, hx⟩ := h.fitted hpos hn
  obtain ⟨j, rfl⟩ : ∃ j, n = j + 1 := Nat.exists_eq_succ_of_ne_zero (Nat.ne_of_gt hpos)
  exact ⟨x, hx, hkeeps j (Nat.lt_succ_self j) hx⟩

end Made

end

end Machine

end ObjectSystem
