import VectorGraph.Cache.Desk
import VectorGraph.Proofs.Cache.Tidy

/-!
What happens at a desk, event by event.

Calls, ends of computations, departures and removals come in any order (`Desk.Event`). The cache of a desk
does not see the callers (`Desk.step_cache`), and each caller is treated as if there were no other
(`Desk.step_caller`), so that a run of events is followed on each side for itself: for the cache by the
invariant that the computations under way have keys and tickets of their own and nothing is stored under
the key of one (`Cache.Exclusive`), for a caller by what its computation ends with.
-/
namespace VectorGraph

namespace Cache

variable {c c' : Cache} {key : CacheKey} {ticket : Nat} {result : Except Failure Fragment}

/-! ## A key that is neither stored nor computed -/

/-- Nothing is known of the key: it is to be computed by the next who asks. -/
structure Lacks (c : Cache) (key : CacheKey) : Prop where
  stored : c.find? key = none
  known : c.ticketOf? key = none

namespace Lacks

theorem shrink (h : c.Lacks key) (running : c'.running = c.running)
    (entries : ∀ x ∈ c'.entries, x ∈ c.entries) : c'.Lacks key where
  stored := find?_eq_none_iff.mpr fun x hx => find?_eq_none_iff.mp h.stored x (entries x hx)
  known := by
    rw [ticketOf?_eq_none_iff, running, ← ticketOf?_eq_none_iff]
    exact h.known

theorem request (h : c.Lacks key) {other : CacheKey} (ne : other ≠ key) :
    (c.request other).2.Lacks key := by
  cases stored : c.find? other with
  | some f =>
    rw [request_found stored]
    exact h.shrink rfl fun _ hx => mem_touch.mp hx
  | none =>
    cases known : c.ticketOf? other with
    | some ticket =>
      rw [request_joined stored known]
      exact h.shrink rfl fun _ hx => hx
    | none =>
      rw [request_started stored known]
      refine ⟨h.stored, ticketOf?_eq_none_iff.mpr fun x hx => ?_⟩
      rcases List.mem_append.mp hx with hx | hx
      · exact ticketOf?_eq_none_iff.mp h.known x hx
      · obtain rfl := List.mem_singleton.mp hx
        exact ne

theorem settle (h : c.Lacks key) (ticket : Nat) (result : Except Failure Fragment) :
    (c.settle ticket result).2.Lacks key := by
  rcases settle_cases c ticket result with ⟨-, same⟩ | ⟨ended, there, spec⟩
  · rw [same]
    exact h
  · have idle := ticketOf?_eq_none_iff.mp h.known
    refine ⟨find?_eq_none_iff.mpr fun x hx => ?_, ticketOf?_eq_none_iff.mpr fun x hx => ?_⟩
    · rcases spec.entries x hx with hx | ⟨f, rfl, -⟩
      · exact find?_eq_none_iff.mp h.stored x hx
      · exact idle _ there
    · rw [spec.running] at hx
      exact idle x (List.mem_filter.mp hx).1

end Lacks

/-- After a failure nothing is known of the key. -/
theorem Exclusive.lacks_of_failed (h : c.Exclusive) (there : (ticket, key) ∈ c.running)
    (failure : Failure) : (c.settle ticket (.error failure)).2.Lacks key := by
  rw [settle_failed]
  refine ⟨h.absent _ there, ticketOf?_eq_none_iff.mpr fun x hx same => ?_⟩
  obtain ⟨hx, other⟩ := List.mem_filter.mp hx
  rw [bne_iff_ne] at other
  apply other
  rw [List.inj_on_of_nodup_map h.keys hx there same]

end Cache

namespace Desk

/-- What can happen at a desk. -/
inductive Event where
  | call (key : CacheKey)
  | finish (ticket : Nat) (result : Except Failure Fragment)
  | leave (caller : Nat)
  | invalidateNode (node : Label)
  | invalidate (g : Graph) (node : Label)

namespace Event

def isCall : Event → Bool
  | .call _ => true
  | _ => false

/-- How the event ends the computation with the ticket. -/
def endOf? (ticket : Nat) : Event → Option (Except Failure Fragment)
  | .finish t result => if t = ticket then some result else none
  | _ => none

/-- What the event does to the cache. -/
def onCache (c : Cache) : Event → Cache
  | .call key => (c.request key).2
  | .finish ticket result => (c.settle ticket result).2
  | .leave _ => c
  | .invalidateNode node => (c.invalidateNode node).2
  | .invalidate g node => (c.invalidate g node).2

/-- What the event makes of the caller with the number `i` if every fragment can be stored. -/
def onCaller (i : Nat) : Event → Caller → Caller
  | .leave j, .waiting t => if i = j then .left else .waiting t
  | .finish ticket result, .waiting t => if t = ticket then .answered result else .waiting t
  | _, x => x

end Event

def step (d : Desk) : Event → Desk
  | .call key => (d.call key).2
  | .finish ticket result => d.finish ticket result
  | .leave caller => d.leave caller
  | .invalidateNode node => { d with cache := (d.cache.invalidateNode node).2 }
  | .invalidate g node => { d with cache := (d.cache.invalidate g node).2 }

def run (d : Desk) (events : List Event) : Desk := events.foldl step d

variable {d d' : Desk} {key : CacheKey} {event : Event} {events : List Event} {i ticket : Nat} {x : Caller}

@[simp] theorem run_nil : d.run [] = d := rfl

@[simp] theorem run_cons : d.run (event :: events) = (d.step event).run events := rfl

@[simp] theorem run_append {later : List Event} : d.run (events ++ later) = (d.run events).run later :=
  List.foldl_append

/-- The desk of a cache after what has happened there from the first call on. -/
def after (c : Cache) (events : List Event) : Desk := run { cache := c } events

theorem after_append (c : Cache) (before later : List Event) :
    after c (before ++ later) = (after c before).run later := run_append

/-! ## One event -/

/-- Where a caller stands who comes now. -/
def greet (d : Desk) (key : CacheKey) : Caller :=
  match d.cache.find? key with
  | some f => .answered (.ok f)
  | none => .waiting ((d.cache.ticketOf? key).getD d.cache.issued)

theorem find?_of_greet {result : Except Failure Fragment} (answered : d.greet key = .answered result) :
    ∃ f, result = .ok f ∧ d.cache.find? key = some f := by
  unfold greet at answered
  cases stored : d.cache.find? key with
  | some f =>
    rw [stored] at answered
    cases answered
    exact ⟨f, rfl, rfl⟩
  | none =>
    rw [stored] at answered
    cases answered

theorem greet_ne_left : d.greet key ≠ .left := by
  unfold greet
  cases d.cache.find? key <;> exact Caller.noConfusion

theorem call_snd (d : Desk) (key : CacheKey) :
    (d.call key).2 = { cache := (d.cache.request key).2, callers := d.callers ++ [d.greet key] } := by
  unfold call greet
  cases stored : d.cache.find? key with
  | some f => simp only [Cache.request_found stored]
  | none =>
    cases known : d.cache.ticketOf? key with
    | some t => simp only [Cache.request_joined stored known, Option.getD_some]
    | none => simp only [Cache.request_started stored known, Option.getD_none]

/-- A ticket is handed out to who asks for what is neither stored nor computed. -/
theorem call_fst_eq_some :
    (d.call key).1 = some ticket ↔ d.cache.Lacks key ∧ ticket = d.cache.issued := by
  unfold call
  cases stored : d.cache.find? key with
  | some f =>
    simp only [Cache.request_found stored, reduceCtorEq, false_iff]
    rintro ⟨lacks, -⟩
    rw [lacks.stored] at stored
    cases stored
  | none =>
    cases known : d.cache.ticketOf? key with
    | some t =>
      simp only [Cache.request_joined stored known, reduceCtorEq, false_iff]
      rintro ⟨lacks, -⟩
      rw [lacks.known] at known
      cases known
    | none =>
      simp only [Cache.request_started stored known, Option.some.injEq]
      exact ⟨fun same => ⟨⟨stored, known⟩, same.symm⟩, fun h => h.2.symm⟩

theorem mem_running_of_greet (waits : d.greet key = .waiting ticket) :
    (ticket, key) ∈ (d.cache.request key).2.running := by
  unfold greet at waits
  cases stored : d.cache.find? key with
  | some f =>
    rw [stored] at waits
    cases waits
  | none =>
    rw [stored] at waits
    cases known : d.cache.ticketOf? key with
    | some t =>
      rw [known] at waits
      cases waits
      rw [Cache.request_joined stored known]
      exact Cache.mem_of_ticketOf? known
    | none =>
      rw [known] at waits
      cases waits
      rw [Cache.request_started stored known]
      exact List.mem_append_right _ (List.mem_singleton_self _)

/-- The cache of a desk does not see the callers. -/
theorem step_cache (d : Desk) (event : Event) : (d.step event).cache = event.onCache d.cache := by
  cases event with
  | call key => exact congrArg Desk.cache (d.call_snd key)
  | finish ticket result => rfl
  | leave caller => rfl
  | invalidateNode node => rfl
  | invalidate g node => rfl

/-- The callers who are there stay, and a call adds one. -/
theorem length_callers_step (d : Desk) (event : Event) :
    (d.step event).callers.length = d.callers.length + event.isCall.toNat := by
  cases event with
  | call key =>
    show (d.call key).2.callers.length = _
    rw [call_snd, List.length_append]
    rfl
  | finish ticket result => exact List.length_map _
  | leave caller => exact List.length_modify ..
  | invalidateNode node => rfl
  | invalidate g node => rfl

/-- What the event makes of the caller with the number `i`. -/
def treat (d : Desk) (i : Nat) : Event → Caller → Caller
  | .leave j, .waiting t => if i = j then .left else .waiting t
  | .finish ticket result, .waiting t =>
    if t = ticket then .answered (d.cache.settle ticket result).1 else .waiting t
  | _, x => x

/-- Each caller is treated as if there were no other. -/
theorem step_caller (there : d.callers[i]? = some x) (event : Event) :
    (d.step event).callers[i]? = some (d.treat i event x) := by
  cases event with
  | call key =>
    show (d.call key).2.callers[i]? = _
    rw [call_snd, List.getElem?_append_left (List.getElem?_eq_some_iff.mp there).1, there]
    cases x <;> rfl
  | finish ticket result =>
    show (d.finish ticket result).callers[i]? = _
    unfold finish
    rw [List.getElem?_map, there]
    cases x <;> rfl
  | leave caller =>
    show (d.leave caller).callers[i]? = _
    unfold leave
    rw [List.getElem?_modify, there]
    by_cases same : caller = i
    · subst same
      cases x <;> simp [treat]
    · cases x <;> simp [treat, same, Ne.symm same]
  | invalidateNode node => cases x <;> exact there
  | invalidate g node => cases x <;> exact there

theorem treat_eq_onCaller (able : 0 ≤ d.cache.capacity) (i : Nat) (event : Event) (x : Caller) :
    d.treat i event x = event.onCaller i x := by
  cases event with
  | finish ticket result =>
    cases x with
    | waiting t =>
      show (if t = ticket then Caller.answered (d.cache.settle ticket result).1 else _) = _
      rw [Cache.settle_fst able]
      rfl
    | answered result => rfl
    | left => rfl
  | leave caller => cases x <;> rfl
  | call key => cases x <;> rfl
  | invalidateNode node => cases x <;> rfl
  | invalidate g node => cases x <;> rfl

end Desk

/-! ## Invariants -/

namespace Cache

variable {c : Cache} {key : CacheKey} {ticket : Nat}

theorem capacity_onCache (c : Cache) (event : Desk.Event) : (event.onCache c).capacity = c.capacity := by
  cases event with
  | call key =>
    show (c.request key).2.capacity = _
    unfold request
    split
    · rfl
    · split <;> rfl
  | finish ticket result =>
    rcases settle_cases c ticket result with ⟨-, same⟩ | ⟨key, -, spec⟩
    · exact congrArg (·.2.capacity) same
    · exact spec.capacity
  | leave caller => rfl
  | invalidateNode node => rfl
  | invalidate g node => exact (c.invalidate_shrinks g node).2.2.1

theorem Exclusive.onCache (h : c.Exclusive) (event : Desk.Event) : (event.onCache c).Exclusive := by
  cases event with
  | call key => exact h.request key
  | finish ticket result => exact h.settle ticket result
  | leave caller => exact h
  | invalidateNode node =>
    obtain ⟨running, issued, -, entries⟩ := c.invalidateNode_shrinks node
    exact h.shrink running issued entries
  | invalidate g node =>
    obtain ⟨running, issued, -, entries⟩ := c.invalidate_shrinks g node
    exact h.shrink running issued entries

/-- Only a call for the key makes the key known. -/
theorem Lacks.onCache (h : c.Lacks key) {event : Desk.Event} (other : event ≠ .call key) :
    (event.onCache c).Lacks key := by
  cases event with
  | call k => exact h.request fun same => other (congrArg Desk.Event.call same)
  | finish ticket result => exact h.settle ticket result
  | leave caller => exact h
  | invalidateNode node =>
    obtain ⟨running, -, -, entries⟩ := c.invalidateNode_shrinks node
    exact h.shrink running entries
  | invalidate g node =>
    obtain ⟨running, -, -, entries⟩ := c.invalidate_shrinks g node
    exact h.shrink running entries

end Cache

namespace Desk

variable {d d' : Desk} {key : CacheKey} {event : Event} {events : List Event} {i ticket : Nat} {x : Caller}

theorem able_step (able : 0 ≤ d.cache.capacity) (event : Event) : 0 ≤ (d.step event).cache.capacity := by
  rw [step_cache, Cache.capacity_onCache]
  exact able

theorem able_run (able : 0 ≤ d.cache.capacity) (events : List Event) : 0 ≤ (d.run events).cache.capacity := by
  induction events generalizing d with
  | nil => exact able
  | cons event events ih => exact ih (able_step able event)

theorem exclusive_run (h : d.cache.Exclusive) (events : List Event) : (d.run events).cache.Exclusive := by
  induction events generalizing d with
  | nil => exact h
  | cons event events ih =>
    apply ih
    rw [step_cache]
    exact h.onCache event

theorem lacks_run (h : d.cache.Lacks key) (uncalled : .call key ∉ events) :
    (d.run events).cache.Lacks key := by
  induction events generalizing d with
  | nil => exact h
  | cons event events ih =>
    refine ih ?_ fun later => uncalled (List.mem_cons_of_mem _ later)
    rw [step_cache]
    exact h.onCache fun same => uncalled (same ▸ List.mem_cons_self)

/-! ## What is running -/

/-- A computation runs on until its end, and one is added only where its ticket is handed out. -/
theorem mem_running_step : (ticket, key) ∈ (d.step event).cache.running ↔
    ((ticket, key) ∈ d.cache.running ∧ ∀ result, event ≠ .finish ticket result) ∨
      (event = .call key ∧ (d.call key).1 = some ticket) := by
  rw [step_cache]
  cases event with
  | call k =>
    simp only [Event.onCache, ne_eq, reduceCtorEq, not_false_eq_true, implies_true, and_true,
      Event.call.injEq, call_fst_eq_some]
    -- A call adds a computation only where the key is neither stored nor under way.
    cases stored : d.cache.find? k with
    | some f =>
      rw [Cache.request_found stored]
      refine (or_iff_left ?_).symm
      rintro ⟨rfl, lacks, -⟩
      rw [lacks.stored] at stored
      cases stored
    | none =>
      cases known : d.cache.ticketOf? k with
      | some t =>
        rw [Cache.request_joined stored known]
        refine (or_iff_left ?_).symm
        rintro ⟨rfl, lacks, -⟩
        rw [lacks.known] at known
        cases known
      | none =>
        rw [Cache.request_started stored known, List.mem_append, List.mem_singleton, Prod.mk.injEq]
        refine or_congr_right ⟨?_, ?_⟩
        · rintro ⟨rfl, rfl⟩
          exact ⟨rfl, ⟨stored, known⟩, rfl⟩
        · rintro ⟨rfl, -, rfl⟩
          exact ⟨rfl, rfl⟩
  | finish t result =>
    simp only [Event.onCache, Cache.settle_running, List.mem_filter, bne_iff_ne, ne_eq, Event.finish.injEq,
      not_and, reduceCtorEq, false_and, or_false]
    refine and_congr_right fun _ => ⟨fun other _ same => absurd same.symm other, fun h same => ?_⟩
    exact h result same.symm rfl
  | leave caller => simp [Event.onCache]
  | invalidateNode node => simp [Event.onCache, (d.cache.invalidateNode_shrinks node).1]
  | invalidate g node => simp [Event.onCache, (d.cache.invalidate_shrinks g node).1]

/-- What runs at the end has run from the start, or a call has started it and nothing has ended it since. -/
theorem mem_running_run : (ticket, key) ∈ (d.run events).cache.running ↔
    ((ticket, key) ∈ d.cache.running ∧ ∀ result, .finish ticket result ∉ events) ∨
      ∃ before later, events = before ++ .call key :: later ∧
        ((d.run before).call key).1 = some ticket ∧ ∀ result, .finish ticket result ∉ later := by
  induction events generalizing d with
  | nil => simp
  | cons event events ih =>
    rw [run_cons, ih, mem_running_step]
    constructor
    · rintro (⟨⟨there, goes⟩ | ⟨rfl, started⟩, open_⟩ | ⟨before, later, rfl, started, open_⟩)
      · refine .inl ⟨there, fun result ended => ?_⟩
        rcases List.mem_cons.mp ended with ended | ended
        · exact goes result ended.symm
        · exact open_ result ended
      · exact .inr ⟨[], events, rfl, started, open_⟩
      · exact .inr ⟨event :: before, later, rfl, started, open_⟩
    · rintro (⟨there, open_⟩ | ⟨before, later, split, started, open_⟩)
      · refine .inl ⟨.inl ⟨there, fun result same => ?_⟩, fun result ended => ?_⟩
        · exact open_ result (same ▸ List.mem_cons_self)
        · exact open_ result (List.mem_cons_of_mem _ ended)
      · cases before with
        | nil =>
          obtain ⟨rfl, rfl⟩ := List.cons.inj split
          exact .inl ⟨.inr ⟨rfl, started⟩, open_⟩
        | cons first before =>
          obtain ⟨rfl, rfl⟩ := List.cons.inj split
          exact .inr ⟨before, later, rfl, started, open_⟩

/-! ## What becomes of a caller -/

/-- Nothing more becomes of who does not wait. -/
theorem run_settled (there : d.callers[i]? = some x) (settled : ∀ t, x ≠ .waiting t) (events : List Event) :
    (d.run events).callers[i]? = some x := by
  induction events generalizing d with
  | nil => exact there
  | cons event events ih =>
    apply ih
    rw [step_caller there]
    cases x with
    | waiting t => exact absurd rfl (settled t)
    | answered result => cases event <;> rfl
    | left => cases event <;> rfl

theorem run_caller (able : 0 ≤ d.cache.capacity) (there : d.callers[i]? = some x) (events : List Event) :
    (d.run events).callers[i]? = some (events.foldl (fun x event => event.onCaller i x) x) := by
  induction events generalizing d x with
  | nil => exact there
  | cons event events ih =>
    refine ih (able_step able event) ?_
    rw [step_caller there, treat_eq_onCaller able]

theorem foldl_onCaller_answered (result : Except Failure Fragment) (events : List Event) :
    events.foldl (fun x event => event.onCaller i x) (.answered result) = .answered result := by
  induction events with
  | nil => rfl
  | cons event events ih => cases event <;> exact ih

/-- Who does not leave is answered with the end of the computation, when it comes to that. -/
theorem foldl_onCaller_waiting (stays : .leave i ∉ events) :
    events.foldl (fun x event => event.onCaller i x) (.waiting ticket) =
      match events.findSome? (Event.endOf? ticket) with
      | some result => .answered result
      | none => .waiting ticket := by
  induction events with
  | nil => rfl
  | cons event events ih =>
    have ih := ih fun later => stays (List.mem_cons_of_mem _ later)
    rw [List.foldl_cons, List.findSome?_cons]
    cases event with
    | finish t result =>
      by_cases same : t = ticket
      · subst same
        simp only [Event.onCaller, Event.endOf?, if_true]
        exact foldl_onCaller_answered result events
      · simp only [Event.onCaller, Event.endOf?, if_neg same, if_neg (Ne.symm same)]
        exact ih
    | leave j =>
      have other : i ≠ j := fun same => stays (same ▸ List.mem_cons_self)
      simp only [Event.onCaller, Event.endOf?, if_neg other]
      exact ih
    | call key => exact ih
    | invalidateNode node => exact ih
    | invalidate g node => exact ih

end Desk

end VectorGraph
