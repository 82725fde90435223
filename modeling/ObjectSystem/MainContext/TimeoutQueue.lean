import ObjectSystem.MainContext.Source

/-!
# Timeout queues

A timeout enters the queue of its context with its deadline when it is attached, and again each time
it has run and stays. The queue is told nothing when a source is removed: an entry of a source that
is gone, or due at another time by now, is *stale*. Whoever reads the queue passes over stale
entries; all entries that are due, stale or not, leave it together when an iteration collects.
-/

namespace ObjectSystem

/-- The timeout queue, the earliest deadline first. -/
structure TimeoutQueue where
  entries : List TimeoutEntry := []
  ordered : entries.Pairwise (·.readyAt ≤ ·.readyAt) := by exact .nil
  deriving Repr

namespace TimeoutQueue

/-- Puts an entry behind all that are due no later. -/
def insert (e : TimeoutEntry) : List TimeoutEntry → List TimeoutEntry
  | [] => [e]
  | f :: rest => if f.readyAt ≤ e.readyAt then f :: insert e rest else e :: f :: rest

theorem mem_insert {e f : TimeoutEntry} {entries : List TimeoutEntry} :
    f ∈ insert e entries ↔ f = e ∨ f ∈ entries := by
  induction entries with
  | nil => exact List.mem_cons
  | cons g rest ih =>
      unfold insert
      split
      · rw [List.mem_cons, ih, List.mem_cons, or_left_comm]
      · rw [List.mem_cons]

theorem ordered_insert (e : TimeoutEntry) {entries : List TimeoutEntry}
    (h : entries.Pairwise (·.readyAt ≤ ·.readyAt)) :
    (insert e entries).Pairwise (·.readyAt ≤ ·.readyAt) := by
  induction entries with
  | nil => exact List.pairwise_singleton _ _
  | cons f rest ih =>
      obtain ⟨hf, hrest⟩ := List.pairwise_cons.mp h
      unfold insert
      split
      · next hle =>
          refine List.pairwise_cons.mpr ⟨fun g hg => ?_, ih hrest⟩
          rcases mem_insert.mp hg with rfl | hg
          · exact hle
          · exact hf g hg
      · next hlt =>
          refine List.pairwise_cons.mpr ⟨fun g hg => ?_, h⟩
          have hef : e.readyAt ≤ f.readyAt := Nat.le_of_lt (Nat.lt_of_not_le hlt)
          rcases List.mem_cons.mp hg with rfl | hg
          · exact hef
          · exact Nat.le_trans hef (hf g hg)

/-- Enters a timeout with its deadline; an idle source waits in no queue. -/
def enter {β : Type} (q : TimeoutQueue) (s : Source β) : TimeoutQueue :=
  if s.kind.isIdle then q
  else { entries := insert s.entry q.entries, ordered := ordered_insert s.entry q.ordered }

/-- The first entry that is not stale. -/
def first? (q : TimeoutQueue) (isStale : TimeoutEntry → Bool) : Option TimeoutEntry :=
  (q.entries.dropWhile isStale).head?

/-- The entries that are due. -/
def due (q : TimeoutQueue) (now : Nat) : List TimeoutEntry :=
  q.entries.takeWhile (·.readyAt ≤ now)

/-- The queue after the due entries have left it. -/
def afterDue (q : TimeoutQueue) (now : Nat) : TimeoutQueue where
  entries := q.entries.dropWhile (·.readyAt ≤ now)
  ordered := q.ordered.sublist (List.dropWhile_sublist _)

end TimeoutQueue

end ObjectSystem
