import Mathlib.Data.List.SplitBy
import ObjectSystem.Debounce

/-!
# What debouncing is to do

The calls of a debounced method fall into bursts: a call continues the burst of the call before it if
less than the interval has passed. `Debounce.reference` says, burst by burst, what runs of a method its
calls lead to, and when. It knows nothing of timers; that a method runs just so is the subject of
another module. Here are the laws by which the reference is followed call by call.
-/

namespace ObjectSystem

/-- A call or a run of a method: when, and with which arguments. -/
structure Timed where
  time : Nat
  args : List Value
  deriving Repr, DecidableEq

namespace Debounce

variable (d : Debounce)

/-- Whether a call continues the burst of the call before it. -/
def continues (x y : Timed) : Bool :=
  y.time - x.time < d.interval

/-- The bursts of some calls, in order. -/
def bursts (calls : List Timed) : List (List Timed) :=
  calls.splitBy d.continues

/-- The run at the end of a burst, once the clock has come to it. -/
def ending (now : Nat) (last : Timed) : List Timed :=
  if last.time + d.interval ≤ now then [⟨last.time + d.interval, last.args⟩] else []

/-- The runs of one burst up to some time. -/
def runsOf (now : Nat) : List Timed → List Timed
  | [] => []
  | first :: rest =>
    match d.trigger with
    | .leading => [first]
    | .trailing => d.ending now (rest.getLastD first)
    | .leadingTrailing =>
      if rest.isEmpty then [first] else first :: d.ending now (rest.getLastD first)

/-- The runs of a method up to some time, given its calls. -/
def reference (now : Nat) (calls : List Timed) : List Timed :=
  (d.bursts calls).flatMap (d.runsOf now)

/-! ## The runs of one burst -/

/-- The run at the first call of a burst. -/
def opening (first : Timed) : List Timed :=
  if d.trigger.isLeading then [first] else []

/-- Whether a burst with some calls after the first has one to run at its end. -/
def hasWaiting (rest : List Timed) : Bool :=
  d.trigger.isTrailing && (!d.trigger.isLeading || !rest.isEmpty)

theorem runsOf_eq (now : Nat) (first : Timed) (rest : List Timed) :
    d.runsOf now (first :: rest) =
      d.opening first ++ if d.hasWaiting rest then d.ending now (rest.getLastD first) else [] := by
  unfold runsOf opening hasWaiting
  cases d.trigger with
  | leading => rfl
  | trailing => rfl
  | leadingTrailing => cases rest <;> rfl

theorem hasWaiting_append (rest : List Timed) (call : Timed) :
    d.hasWaiting (rest ++ [call]) = d.trigger.isTrailing := by
  unfold hasWaiting
  simp

/-- Before its end, a burst has run at its first call only. -/
theorem runsOf_of_lt {now : Nat} {first : Timed} {rest : List Timed}
    (h : now < (rest.getLastD first).time + d.interval) :
    d.runsOf now (first :: rest) = d.opening first := by
  rw [runsOf_eq, ending, if_neg (Nat.not_le.mpr h), ite_self, List.append_nil]

/-- At its end, a burst runs the call that waits. -/
theorem runsOf_end (first : Timed) (rest : List Timed) :
    d.runsOf ((rest.getLastD first).time + d.interval) (first :: rest) =
      d.opening first ++
        if d.hasWaiting rest then
          [⟨(rest.getLastD first).time + d.interval, (rest.getLastD first).args⟩]
        else [] := by
  rw [runsOf_eq, ending, if_pos (Nat.le_refl _)]

/-! ## Call by call -/

/-- The bursts of some calls have ended by some time. -/
def Settled (now : Nat) (calls : List Timed) : Prop :=
  ∀ x ∈ calls, x.time + d.interval ≤ now

theorem Settled.mono {d : Debounce} {now now' : Nat} {calls : List Timed}
    (h : d.Settled now calls) (hle : now ≤ now') : d.Settled now' calls :=
  fun x hx => Nat.le_trans (h x hx) hle

/-- After the end of its bursts, calls lead to no more runs. -/
theorem reference_of_settled {now now' : Nat} {calls : List Timed} (h : d.Settled now calls)
    (hle : now ≤ now') : d.reference now' calls = d.reference now calls := by
  have hruns : ∀ burst ∈ d.bursts calls, d.runsOf now' burst = d.runsOf now burst := by
    intro burst hburst
    cases burst with
    | nil => rfl
    | cons first rest =>
        have hlast : rest.getLastD first ∈ calls := by
          rw [← List.flatten_splitBy d.continues calls]
          refine List.mem_flatten.mpr ⟨first :: rest, hburst, ?_⟩
          rw [← List.getLast_eq_getLastD]
          exact List.getLast_mem (List.cons_ne_nil first rest)
        have hnow := h _ hlast
        rw [runsOf_eq, runsOf_eq, ending, ending, if_pos hnow, if_pos (Nat.le_trans hnow hle)]
  unfold reference
  exact List.flatMap_congr hruns

/-- Calls that follow one another closely, long after all the calls before them. -/
structure IsLatest (past : List Timed) (first : Timed) (rest : List Timed) : Prop where
  chain : (first :: rest).IsChain fun x y => d.continues x y = true
  apart : d.Settled first.time past

variable {d}

/-- The calls of the latest burst are a burst of their own. -/
theorem IsLatest.reference {past rest : List Timed} {first : Timed} (h : d.IsLatest past first rest)
    (now : Nat) : d.reference now (past ++ first :: rest) =
      d.reference now past ++ d.runsOf now (first :: rest) := by
  have hbursts : d.bursts (past ++ first :: rest) = d.bursts past ++ [first :: rest] := by
    unfold bursts
    rw [List.splitBy_append_cons, List.splitBy_of_isChain (List.cons_ne_nil first rest) h.chain]
    intro x hx
    have hapart := h.apart x (List.mem_of_mem_getLast? hx)
    unfold continues
    exact decide_eq_false (by omega)
  unfold Debounce.reference
  rw [hbursts, List.flatMap_append, List.flatMap_singleton]

theorem IsLatest.single {past : List Timed} {first : Timed} (h : d.Settled first.time past) :
    d.IsLatest past first [] :=
  ⟨List.isChain_singleton first, h⟩

/-- A call that comes soon enough joins the latest burst. -/
theorem IsLatest.append {past rest : List Timed} {first call : Timed}
    (h : d.IsLatest past first rest) (hpos : 0 < d.interval)
    (hsoon : call.time < (rest.getLastD first).time + d.interval) :
    d.IsLatest past first (rest ++ [call]) := by
  refine ⟨?_, h.apart⟩
  rw [← List.cons_append, List.isChain_append]
  refine ⟨h.chain, List.isChain_singleton call, fun x hx y hy => ?_⟩
  rw [List.getLast?_eq_some_getLast (List.cons_ne_nil first rest), List.getLast_eq_getLastD] at hx
  obtain rfl := Option.some.inj hx
  obtain rfl := Option.some.inj hy
  unfold continues
  exact decide_eq_true (by omega)

end Debounce

end ObjectSystem
