import ObjectSystem.Proofs.Run

/-!
# Launches

A source is *launched* when its callback starts. `Machine.launches` lists the sources of a context
that are launched in a number of steps, and `Machine.deadlines` the deadlines of the timeouts among
them.
-/

namespace ObjectSystem

variable {σ β κ : Type}

namespace Machine

variable {client : Client σ β κ} {m : Machine σ β κ} {c : ContextId}

/-- The source of a context whose callback starts with the next step. -/
def launch? (c : ContextId) (m : Machine σ β κ) : Option SourceId :=
  match m.control with
  | .invoke _ inv =>
    match inv.role with
    | .source d id => if d = c then some id else none
    | _ => none
  | _ => none

/-- The deadline of the timeout whose callback starts with the next step. -/
def deadline? (c : ContextId) (m : Machine σ β κ) : Option Nat :=
  ((m.launch? c).bind (m.source? c)).bind fun s => if s.kind.isIdle then none else some s.readyAt

/-- The sources of a context whose callbacks start in so many steps, in order. -/
def launches (client : Client σ β κ) (m : Machine σ β κ) (c : ContextId) (n : Nat) :
    List SourceId :=
  log client (launch? c) m n

/-- The deadlines of the timeouts whose callbacks start in so many steps, in order. -/
def deadlines (client : Client σ β κ) (m : Machine σ β κ) (c : ContextId) (n : Nat) : List Nat :=
  log client (deadline? c) m n

theorem launch?_of_deliver {reply : Reply β} (h : m.control = .deliver reply) :
    m.launch? c = none := by
  simp [launch?, h]

theorem launch?_of_perform {command : Command β} (h : m.control = .perform command) :
    m.launch? c = none := by
  simp [launch?, h]

/-- With each deadline, a source starts. -/
theorem exists_launch {client : Client σ β κ} {n : Nat} (h : m.deadlines client c n ≠ []) :
    ∃ id, id ∈ m.launches client c n := by
  obtain ⟨deadline, hmem⟩ := List.exists_mem_of_ne_nil _ h
  obtain ⟨i, hi, hdeadline⟩ := List.mem_filterMap.mp hmem
  obtain ⟨s, hsource, -⟩ := Option.bind_eq_some_iff.mp hdeadline
  obtain ⟨id, hlaunch, -⟩ := Option.bind_eq_some_iff.mp hsource
  exact ⟨id, List.mem_filterMap.mpr ⟨i, hi, hlaunch⟩⟩

theorem launches_add (client : Client σ β κ) (m : Machine σ β κ) (c : ContextId) (j k : Nat) :
    m.launches client c (j + k) = m.launches client c j ++ (m.after client j).launches client c k :=
  log_add client _ m j k

theorem deadlines_add (client : Client σ β κ) (m : Machine σ β κ) (c : ContextId) (j k : Nat) :
    m.deadlines client c (j + k) =
      m.deadlines client c j ++ (m.after client j).deadlines client c k :=
  log_add client _ m j k

theorem deadline?_of_launch? (h : m.launch? c = none) : m.deadline? c = none := by
  simp [deadline?, h]

/-- A step with which no source starts launches none. -/
theorem silent_of_launch? (client : Client σ β κ) (h : m.launch? c = none) :
    m.launches client c 1 = [] ∧ m.deadlines client c 1 = [] := by
  simp [launches, deadlines, log_one, h, deadline?_of_launch? h]

/-- Without a start in the first and in the last of some steps, all starts are in between. -/
theorem silent_ends (client : Client σ β κ) {n : Nat}
    (hfirst : m.launch? c = none)
    (hlast : ((m.step client).after client n).launch? c = none) :
    m.launches client c (1 + (n + 1)) = (m.step client).launches client c n ∧
      m.deadlines client c (1 + (n + 1)) = (m.step client).deadlines client c n := by
  obtain ⟨hlaunch, hdeadline⟩ := silent_of_launch? client hfirst
  obtain ⟨hlaunch', hdeadline'⟩ := silent_of_launch? client hlast
  refine ⟨?_, ?_⟩
  · rw [launches_add, hlaunch, List.nil_append, launches_add]
    exact (congrArg _ hlaunch').trans (List.append_nil _)
  · rw [deadlines_add, hdeadline, List.nil_append, deadlines_add]
    exact (congrArg _ hdeadline').trans (List.append_nil _)

end Machine

end ObjectSystem
