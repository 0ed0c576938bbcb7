import Mathlib.Data.List.Induction
import Mathlib.Data.List.Nodup
import VectorGraph.Engine.Preview

/-!
The latest rendering wins.

A preview is asked for renderings, and their results arrive in any order (`Preview.Event`). The number of a
rendering is what the request for it has told; a result arrives once, for a number that was told
(`Preview.Pending`). The invariant is that the numbers still to be answered are the ones told and not
answered yet: none is above the number of requests, and what was taken so far has a lower number than all
that is still to be taken.
-/
namespace VectorGraph.Preview

/-- What can happen to a preview. -/
inductive Event where
  | request
  | resolve (number : Nat) (result : Except Failure Fragment)

def step (v : Preview) : Event → Preview
  | .request => v.request.2
  | .resolve number result => (v.resolve number result).2

def run (v : Preview) (events : List Event) : Preview := events.foldl step v

/-- What the event puts in the place of the latest fragment, with the number of its rendering. -/
def stores (v : Preview) : Event → Option (Nat × Fragment)
  | .request => none
  | .resolve number result =>
    match (v.resolve number result).1 with
    | .ok (some f) => some (number, f)
    | _ => none

/-- The fragments that have been the latest, with the numbers of their renderings. -/
def stored (v : Preview) : List Event → List (Nat × Fragment)
  | [] => []
  | event :: events => (v.stores event).toList ++ (v.step event).stored events

variable {v : Preview} {event : Event} {events later : List Event} {awaited : List Nat} {number : Nat}
  {result : Except Failure Fragment} {f : Fragment}

@[simp] theorem run_nil : v.run [] = v := rfl

@[simp] theorem run_cons : v.run (event :: events) = (v.step event).run events := rfl

@[simp] theorem run_append : v.run (events ++ later) = (v.run events).run later := List.foldl_append

theorem stored_append : v.stored (events ++ later) = v.stored events ++ (v.run events).stored later := by
  induction events generalizing v with
  | nil => rfl
  | cons event events ih =>
    show _ ++ (v.step event).stored (events ++ later) = (_ ++ _) ++ _
    rw [ih, List.append_assoc]
    rfl

theorem stored_concat (v : Preview) (events : List Event) (event : Event) :
    v.stored (events ++ [event]) = v.stored events ++ ((v.run events).stores event).toList := by
  rw [stored_append]
  exact congrArg _ (List.append_nil _)

/-! ## One event -/

theorem resolve_superseded (other : number ≠ v.generation)
    (fault : ∀ failure, result = .error failure → failure.isGraphFault = true) :
    v.resolve number result = (.ok none, v) := by
  cases result with
  | ok f => simp [resolve, other]
  | error failure => simp [resolve, other, fault failure rfl]

theorem resolve_ok (v : Preview) (f : Fragment) :
    v.resolve v.generation (.ok f) = (.ok (some f), { v with latest := some f }) := by
  simp [resolve]

theorem resolve_error (v : Preview) (failure : Failure) :
    v.resolve v.generation (.error failure) = (.error failure, v) := by
  simp [resolve]

/-- A fragment is stored at the number requested last only. -/
theorem stores_eq_some {entry : Nat × Fragment} :
    v.stores event = some entry ↔ event = .resolve v.generation (.ok entry.2) ∧ entry.1 = v.generation := by
  cases event with
  | request => simp [stores]
  | resolve number result =>
    by_cases last : number = v.generation
    · subst last
      cases result with
      | ok f =>
        obtain ⟨number, f'⟩ := entry
        simp [stores, resolve_ok, and_comm, eq_comm]
      | error failure => simp [stores, resolve_error]
    · cases result with
      | ok f => simp [stores, resolve, last]
      | error failure => cases fault : failure.isGraphFault <;> simp [stores, resolve, fault, last]

theorem step_generation (v : Preview) (event : Event) :
    (v.step event).generation = v.generation + if event matches .request then 1 else 0 := by
  cases event with
  | request => rfl
  | resolve number result =>
    show (v.resolve number result).2.generation = _
    unfold resolve
    split <;> split <;> rfl

/-- The latest fragment is left alone unless one is stored. -/
theorem step_latest (v : Preview) (event : Event) :
    (v.step event).latest = ((v.stores event).map (·.2)).or v.latest := by
  cases stored : v.stores event with
  | some entry =>
    obtain ⟨rfl, -⟩ := stores_eq_some.mp stored
    simp [step, resolve_ok]
  | none =>
    cases event with
    | request => rfl
    | resolve number result =>
      show (v.resolve number result).2.latest = v.latest
      cases result with
      | error failure => cases fault : failure.isGraphFault <;> simp [resolve, fault, apply_ite Prod.snd]
      | ok f =>
        by_cases last : number = v.generation
        · subst last
          simp [stores, resolve_ok] at stored
        · simp [resolve, last]

/-! ## A run of events -/

/-- The latest fragment is the one stored last. -/
theorem run_latest (v : Preview) (events : List Event) :
    (v.run events).latest = ((v.stored events).getLast?.map (·.2)).or v.latest := by
  induction events using List.reverseRecOn with
  | nil => rfl
  | append_singleton events event ih =>
    rw [run_append, run_cons, run_nil, step_latest, ih, stored_concat]
    cases (v.run events).stores event <;> simp

/-- Nothing but a request makes for another number. -/
theorem generation_run (unasked : .request ∉ events) : (v.run events).generation = v.generation := by
  induction events generalizing v with
  | nil => rfl
  | cons event events ih =>
    rw [List.mem_cons, not_or] at unasked
    rw [run_cons, ih unasked.2, step_generation]
    cases event with
    | request => exact absurd rfl unasked.1
    | resolve number result => rfl

theorem le_generation_run (v : Preview) (events : List Event) : v.generation ≤ (v.run events).generation := by
  induction events generalizing v with
  | nil => exact Nat.le_refl _
  | cons event events ih =>
    calc v.generation ≤ (v.step event).generation := by rw [step_generation]; omega
      _ ≤ ((v.step event).run events).generation := ih _

theorem lt_generation_run (asked : .request ∈ events) : v.generation < (v.run events).generation := by
  obtain ⟨before, later, rfl⟩ := List.append_of_mem asked
  have := le_generation_run v before
  have := le_generation_run ((v.run before).step .request) later
  rw [step_generation] at this
  rw [run_append, run_cons]
  simp only [if_true] at this
  omega

/-- The number that a request tells is the one of the preview as long as no other request is made. -/
theorem told_eq_generation_iff (v : Preview) (later : List Event) :
    v.request.1 = ((v.run (.request :: later))).generation ↔ .request ∉ later := by
  have next : (v.step .request).generation = v.request.1 := rfl
  rw [run_cons, ← next]
  refine ⟨fun same asked => ?_, fun unasked => (generation_run unasked).symm⟩
  exact absurd same (Nat.ne_of_lt (lt_generation_run asked))

/-! ## Each result arrives once -/

/-- A course of events in which a result arrives only for a rendering that was requested, and once, with
the numbers of the renderings that are still to be answered. -/
inductive Pending (v : Preview) : List Event → List Nat → Prop where
  | none : Pending v [] []
  | request {events : List Event} {awaited : List Nat} (pending : Pending v events awaited) :
      Pending v (events ++ [.request]) (awaited ++ [(v.run events).request.1])
  | resolve {events : List Event} {awaited : List Nat} {number : Nat} (result : Except Failure Fragment)
      (pending : Pending v events awaited) (asked : number ∈ awaited) :
      Pending v (events ++ [.resolve number result]) (awaited.erase number)

namespace Pending

/-- An awaited number was told by a request. -/
theorem told (pending : Pending v events awaited) (there : number ∈ awaited) :
    ∃ before later, events = before ++ .request :: later ∧ number = (v.run before).request.1 := by
  induction pending with
  | none => cases there
  | @request events awaited _ ih =>
    rcases List.mem_append.mp there with there | there
    · obtain ⟨before, later, rfl, told⟩ := ih there
      exact ⟨before, later ++ [.request], by simp, told⟩
    · exact ⟨events, [], rfl, List.mem_singleton.mp there⟩
  | @resolve events awaited number result _ _ ih =>
    obtain ⟨before, later, rfl, told⟩ := ih (List.mem_of_mem_erase there)
    exact ⟨before, later ++ [.resolve number result], by simp, told⟩

theorem le_generation (pending : Pending v events awaited) (there : number ∈ awaited) :
    number ≤ (v.run events).generation := by
  obtain ⟨before, later, rfl, rfl⟩ := pending.told there
  rw [run_append, run_cons]
  exact le_generation_run ((v.run before).step .request) later

/-- What was stored so far has the number of no rendering that is still to be answered, and no number above
the one requested last. -/
structure Ordered (v : Preview) (events : List Event) (awaited : List Nat) : Prop where
  distinct : awaited.Nodup
  bounded : ∀ entry ∈ v.stored events, entry.1 ≤ (v.run events).generation
  apart : ∀ entry ∈ v.stored events, entry.1 ∉ awaited
  increasing : (v.stored events).Pairwise (·.1 < ·.1)

/-- One event keeps the order: what is stored has the number requested last, and was awaited until now. -/
theorem ordered (pending : Pending v events awaited) : Ordered v events awaited := by
  induction pending with
  | none => exact ⟨List.nodup_nil, fun _ h => (List.not_mem_nil h).elim, fun _ h => (List.not_mem_nil h).elim,
      List.Pairwise.nil⟩
  | @request events awaited pending ih =>
    -- A request stores nothing, and its number is above all that are awaited or stored.
    have same : v.stored (events ++ [.request]) = v.stored events :=
      (stored_concat ..).trans (List.append_nil _)
    refine ⟨?_, ?_, ?_, ?_⟩
    · refine List.nodup_append.mpr ⟨ih.distinct, List.nodup_singleton _, fun old there new told => ?_⟩
      have := pending.le_generation there
      rw [List.mem_singleton.mp told]
      exact Nat.ne_of_lt (Nat.lt_succ_of_le this)
    · intro entry there
      rw [same] at there
      rw [run_append]
      exact Nat.le_trans (ih.bounded entry there) (le_generation_run _ _)
    · intro entry there
      rw [same] at there
      rw [List.mem_append, List.mem_singleton]
      rintro (old | new)
      · exact ih.apart entry there old
      · exact absurd new (Nat.ne_of_lt (Nat.lt_succ_of_le (ih.bounded entry there)))
    · rw [same]
      exact ih.increasing
  | @resolve events awaited number result pending asked ih =>
    -- An answer stores one entry at most, under the generation. The number was awaited, so no older entry has it.
    have unmoved : (v.run (events ++ [.resolve number result])).generation = (v.run events).generation := by
      rw [run_append]
      exact generation_run (by simp)
    have entries : ∀ entry ∈ v.stored (events ++ [.resolve number result]), entry ∈ v.stored events ∨
        entry.1 = number ∧ entry.1 = (v.run events).generation := by
      intro entry there
      rw [stored_concat, List.mem_append, Option.mem_toList] at there
      refine there.imp_right fun new => ?_
      obtain ⟨same, last⟩ := stores_eq_some.mp new
      exact ⟨last.trans (Event.resolve.inj same).1.symm, last⟩
    refine ⟨ih.distinct.erase _, ?_, ?_, ?_⟩
    · intro entry there
      rw [unmoved]
      rcases entries entry there with old | ⟨-, last⟩
      · exact ih.bounded entry old
      · exact Nat.le_of_eq last
    · intro entry there awaited
      rcases entries entry there with old | ⟨answered, -⟩
      · exact ih.apart entry old (List.mem_of_mem_erase awaited)
      · exact ih.distinct.not_mem_erase (answered ▸ awaited)
    · rw [stored_concat]
      refine List.pairwise_append.mpr ⟨ih.increasing, ?_, fun old there new stored => ?_⟩
      · cases (v.run events).stores (.resolve number result) <;> simp
      · obtain ⟨same, last⟩ := stores_eq_some.mp (Option.mem_toList.mp stored)
        have told : number = new.1 := (Event.resolve.inj same).1.trans last.symm
        refine Nat.lt_of_le_of_ne (last ▸ ih.bounded old there) fun equal => ih.apart old there ?_
        rw [equal, ← told]
        exact asked

/-- The latest fragment changes only where a fragment arrives for the rendering requested last. -/
theorem changed (pending : Pending v (events ++ [event]) awaited)
    (changes : (v.run (events ++ [event])).latest ≠ (v.run events).latest) :
    ∃ before later f, events = before ++ .request :: later ∧ .request ∉ later ∧
      event = .resolve (v.run before).request.1 (.ok f) ∧
      (v.run (events ++ [event])).latest = some f := by
  rw [run_append, run_cons, run_nil, step_latest] at changes ⊢
  cases stored : (v.run events).stores event with
  | none => simp [stored] at changes
  | some entry =>
    obtain ⟨rfl, -⟩ := stores_eq_some.mp stored
    -- The event answers a rendering that was awaited, and so there is the request that it was opened by.
    obtain ⟨before, later, rfl, told⟩ : ∃ before later, events = before ++ .request :: later ∧
        (v.run events).generation = (v.run before).request.1 := by
      generalize all : events ++ [_] = course at pending
      cases pending with
      | none => simp at all
      | request pending => simp at all
      | resolve result pending asked =>
        obtain ⟨rfl, last⟩ := List.append_inj' all rfl
        obtain ⟨same, -⟩ := Event.resolve.inj (List.singleton_inj.mp last)
        rw [same]
        exact pending.told asked
    refine ⟨before, later, entry.2, rfl, ?_, by rw [told], rfl⟩
    rw [← told_eq_generation_iff (v.run before), ← run_append, told]

end Pending

/-- Of any number of renderings that are requested and answered in any order, the latest wins.

The latest fragment changes only when a fragment arrives for the rendering that is then the one requested
last, and becomes that fragment; it is the one stored last, and what is stored has ever higher numbers. A
rendering after which another was requested is answered with nothing, and nothing changes; any other is
answered with its fragment, which becomes the latest, or with its failure, which changes nothing. -/
theorem latest_wins (pending : Pending v events awaited) :
    (∀ event awaited, Pending v (events ++ [event]) awaited →
      (v.run (events ++ [event])).latest ≠ (v.run events).latest →
      ∃ before later f, events = before ++ .request :: later ∧ .request ∉ later ∧
        event = .resolve (v.run before).request.1 (.ok f) ∧
        (v.run (events ++ [event])).latest = some f) ∧
    (v.run events).latest = ((v.stored events).getLast?.map (·.2)).or v.latest ∧
    (v.stored events).Pairwise (·.1 < ·.1) ∧
    ∀ before later number, events = before ++ .request :: later → number = (v.run before).request.1 →
      (.request ∈ later →
        (∀ f, (v.run events).resolve number (.ok f) = (.ok none, v.run events)) ∧
        ∀ failure, failure.isGraphFault = true →
          (v.run events).resolve number (.error failure) = (.ok none, v.run events)) ∧
      (.request ∉ later →
        (∀ f, (v.run events).resolve number (.ok f) =
          (.ok (some f), { v.run events with latest := some f })) ∧
        ∀ failure, (v.run events).resolve number (.error failure) = (.error failure, v.run events)) := by
  refine ⟨fun event _ next changes => next.changed changes, v.run_latest events,
    pending.ordered.increasing, ?_⟩
  rintro before later number rfl rfl
  have last := told_eq_generation_iff (v.run before) later
  rw [← run_append] at last
  constructor
  · intro asked
    have other : (v.run before).request.1 ≠ (v.run (before ++ .request :: later)).generation := fun same =>
      last.mp same asked
    constructor
    · intro f
      apply resolve_superseded other
      simp
    · intro failure fault
      apply resolve_superseded other
      simp [fault]
  · intro unasked
    rw [last.mpr unasked]
    exact ⟨resolve_ok _, resolve_error _⟩

/-- A rendering is superseded by a second one and answered in vain, and the second one is still awaited. -/
theorem latest_wins_second :
    let v := ofSettings {} .null
    let events : List Event := [.request, .request, .resolve 1 (.ok { markup := "<g/>" })]
    Pending v events [2] ∧ (v.run events).latest = none ∧
      ∀ f, (v.run events).resolve 2 (.ok f) = (.ok (some f), { v.run events with latest := some f }) := by
  intro v events
  have both : Pending v [.request, .request] [1, 2] := .request (.request .none)
  have pending : Pending v events [2] :=
    Pending.resolve (.ok { markup := "<g/>" }) both List.mem_cons_self
  obtain ⟨-, latest, -, answers⟩ := latest_wins pending
  refine ⟨pending, latest, ?_⟩
  exact ((answers [.request] [.resolve 1 (.ok { markup := "<g/>" })] 2 rfl rfl).2 (by simp)).1

end VectorGraph.Preview
