import VectorGraph.Proofs.Cache.Desk

/-!
How callers share the computations of a cache.

`Desk.Shares` says for any order of events which computations run, what each caller gets, what a departure
and a failure change, and what the counters count. The order in which a desk serves calls that come
together is one of these (`Desk.serve_eq_after`).
-/
namespace VectorGraph.Desk

variable {d d' : Desk} {key : CacheKey} {event : Event} {events : List Event} {i ticket : Nat}

/-! ## What a caller who leaves changes -/

/-- The two desks differ in one caller at most. -/
structure SameBut (i : Nat) (d d' : Desk) : Prop where
  cache : d.cache = d'.cache
  length : d.callers.length = d'.callers.length
  others : ∀ j, j ≠ i → d.callers[j]? = d'.callers[j]?

namespace SameBut

theorem leave (d : Desk) (i : Nat) : SameBut i (d.leave i) d where
  cache := rfl
  length := List.length_modify ..
  others j other := by
    unfold Desk.leave
    rw [List.getElem?_modify_ne _ _ (Ne.symm other)]

theorem step (h : SameBut i d d') (event : Event) : SameBut i (d.step event) (d'.step event) where
  cache := by rw [step_cache, step_cache, h.cache]
  length := by rw [length_callers_step, length_callers_step, h.length]
  others j other := by
    have same := h.others j other
    cases event with
    | call key =>
      show (d.call key).2.callers[j]? = (d'.call key).2.callers[j]?
      have greeted : d.greet key = d'.greet key := by
        unfold greet
        rw [h.cache]
      rw [call_snd, call_snd, List.getElem?_append, List.getElem?_append, h.length, same, greeted]
    | finish ticket result =>
      show (d.finish ticket result).callers[j]? = (d'.finish ticket result).callers[j]?
      unfold finish
      rw [List.getElem?_map, List.getElem?_map, same, h.cache]
    | leave caller =>
      show (d.leave caller).callers[j]? = (d'.leave caller).callers[j]?
      unfold Desk.leave
      rw [List.getElem?_modify, List.getElem?_modify, same]
    | invalidateNode node => exact same
    | invalidate g node => exact same

theorem run (h : SameBut i d d') (events : List Event) : SameBut i (d.run events) (d'.run events) := by
  induction events generalizing d d' with
  | nil => exact h
  | cons event events ih => exact ih (h.step event)

end SameBut

/-! ## What is counted -/

/-- The ticket that the event hands out for a computation that it starts. -/
def ticket? (d : Desk) : Event → Option Nat
  | .call key => (d.call key).1
  | _ => none

/-- The tickets of the computations that are started, in order. -/
def tickets (d : Desk) : List Event → List Nat
  | [] => []
  | event :: events => (d.ticket? event).toList ++ (d.step event).tickets events

/-- Every call is a hit, or a miss that hands out the next ticket. -/
theorem call_counts (d : Desk) (key : CacheKey) :
    ((d.call key).1 = none ∧ (d.step (.call key)).cache.hits = d.cache.hits + 1 ∧
      (d.step (.call key)).cache.misses = d.cache.misses ∧
      (d.step (.call key)).cache.issued = d.cache.issued) ∨
    ((d.call key).1 = some d.cache.issued ∧ (d.step (.call key)).cache.hits = d.cache.hits ∧
      (d.step (.call key)).cache.misses = d.cache.misses + 1 ∧
      (d.step (.call key)).cache.issued = d.cache.issued + 1) := by
  rw [step_cache, Event.onCache]
  unfold call
  cases stored : d.cache.find? key with
  | some f => exact .inl (by simp [Cache.request_found stored, Cache.touch])
  | none =>
    cases known : d.cache.ticketOf? key with
    | some t => exact .inl (by simp [Cache.request_joined stored known])
    | none => exact .inr (by simp [Cache.request_started stored known])

theorem step_counts (other : ∀ key, event ≠ .call key) :
    d.ticket? event = none ∧ (d.step event).cache.hits = d.cache.hits ∧
      (d.step event).cache.misses = d.cache.misses ∧ (d.step event).cache.issued = d.cache.issued := by
  rw [step_cache]
  cases event with
  | call key => exact absurd rfl (other key)
  | finish ticket result =>
    obtain ⟨hits, misses⟩ := d.cache.settle_counts ticket result
    refine ⟨rfl, hits, misses, ?_⟩
    rcases d.cache.settle_cases ticket result with ⟨-, same⟩ | ⟨key, -, spec⟩
    · exact congrArg (·.2.issued) same
    · exact spec.issued
  | leave caller => exact ⟨rfl, rfl, rfl, rfl⟩
  | invalidateNode node => exact ⟨rfl, rfl, rfl, rfl⟩
  | invalidate g node =>
    rw [Event.onCache, Cache.invalidate_snd]
    exact ⟨rfl, rfl, rfl, rfl⟩

theorem hits_add_misses_run (d : Desk) (events : List Event) :
    (d.run events).cache.hits + (d.run events).cache.misses =
      d.cache.hits + d.cache.misses + events.countP Event.isCall := by
  induction events generalizing d with
  | nil => rfl
  | cons event events ih =>
    rw [run_cons, ih]
    by_cases called : ∃ key, event = .call key
    · obtain ⟨key, rfl⟩ := called
      rw [List.countP_cons_of_pos rfl]
      rcases d.call_counts key with ⟨-, hits, misses, -⟩ | ⟨-, hits, misses, -⟩ <;> omega
    · have other : ∀ key, event ≠ .call key := fun key same => called ⟨key, same⟩
      obtain ⟨-, hits, misses, -⟩ := step_counts (d := d) other
      have uncounted : event.isCall ≠ true := by
        cases event with
        | call key => exact absurd rfl (other key)
        | _ => exact Bool.false_ne_true
      rw [List.countP_cons_of_neg uncounted, hits, misses]

/-- A ticket is handed out for each miss. -/
theorem misses_issued_run (d : Desk) (events : List Event) :
    (d.run events).cache.misses = d.cache.misses + (d.tickets events).length ∧
      (d.run events).cache.issued = d.cache.issued + (d.tickets events).length := by
  induction events generalizing d with
  | nil => exact ⟨rfl, rfl⟩
  | cons event events ih =>
    obtain ⟨laterMisses, laterIssued⟩ := ih (d.step event)
    rw [run_cons, laterMisses, laterIssued, tickets, List.length_append]
    by_cases called : ∃ key, event = .call key
    · obtain ⟨key, rfl⟩ := called
      rcases d.call_counts key with ⟨ticket, -, misses, issued⟩ | ⟨ticket, -, misses, issued⟩
      · rw [misses, issued, ticket?, ticket, Option.toList_none, List.length_nil]
        omega
      · rw [misses, issued, ticket?, ticket, Option.toList_some, List.length_singleton]
        omega
    · obtain ⟨ticket, -, misses, issued⟩ := step_counts (d := d) fun key same => called ⟨key, same⟩
      rw [misses, issued, ticket, Option.toList_none, List.length_nil, Nat.zero_add]
      exact ⟨rfl, rfl⟩

/-- The tickets are handed out in a row, so that none is handed out twice. -/
theorem tickets_eq_range' (d : Desk) (events : List Event) :
    d.tickets events = List.range' d.cache.issued (d.tickets events).length := by
  induction events generalizing d with
  | nil => rfl
  | cons event events ih =>
    rw [tickets]
    have rest := ih (d.step event)
    by_cases called : ∃ key, event = .call key
    · obtain ⟨key, rfl⟩ := called
      rcases d.call_counts key with ⟨ticket, -, -, issued⟩ | ⟨ticket, -, -, issued⟩
      · rw [ticket?, ticket, Option.toList_none, List.nil_append, ← issued]
        exact rest
      · rw [ticket?, ticket, Option.toList_some, List.singleton_append, List.length_cons, List.range'_succ,
          ← issued, ← rest]
    · obtain ⟨ticket, -, -, issued⟩ := step_counts (d := d) fun key same => called ⟨key, same⟩
      rw [ticket, Option.toList_none, List.nil_append, ← issued]
      exact rest

/-! ## Sharing -/

/-- What holds of the callers at a cache and of its computations, in whatever order things happen. -/
structure Shares (c : Cache) (events : List Event) : Prop where
  /-- A computation runs from the call that is handed its ticket until it ends. -/
  running : ∀ ticket key, (ticket, key) ∈ (after c events).cache.running ↔
    ∃ before later, events = before ++ .call key :: later ∧
      ((after c before).call key).1 = some ticket ∧ ∀ result, .finish ticket result ∉ later
  /-- No two computations of one key run at the same time. -/
  alone : ((after c events).cache.running.map (·.2)).Nodup
  /-- Who calls and does not leave gets what is stored, or what the computation of the key that runs from
  the call on ends with. -/
  served : ∀ before key later, events = before ++ .call key :: later →
    .leave (after c before).callers.length ∉ later →
    (∃ f, (after c before).cache.find? key = some f ∧
      (after c events).callers[(after c before).callers.length]? = some (.answered (.ok f))) ∨
    ((after c before).cache.find? key = none ∧
      ∃ ticket, (ticket, key) ∈ (after c (before ++ [.call key])).cache.running ∧
        match later.findSome? (Event.endOf? ticket) with
        | some result =>
          (after c events).callers[(after c before).callers.length]? = some (.answered result)
        | none =>
          (after c events).callers[(after c before).callers.length]? = some (.waiting ticket) ∧
            (ticket, key) ∈ (after c events).cache.running)
  /-- A departure makes no difference but to who leaves. -/
  undisturbed : ∀ before caller later, events = before ++ .leave caller :: later →
    SameBut caller (after c events) (after c (before ++ later))
  /-- A failure is not stored. -/
  unsaved : ∀ before ticket failure later, events = before ++ .finish ticket (.error failure) :: later →
    (after c (before ++ [.finish ticket (.error failure)])).cache.entries = (after c before).cache.entries
  /-- After a failure the next who calls for the key starts a computation anew. -/
  retried : ∀ before ticket failure between key later,
    events = before ++ .finish ticket (.error failure) :: (between ++ .call key :: later) →
    (ticket, key) ∈ (after c before).cache.running → .call key ∉ between →
    ∃ next, ((after c (before ++ .finish ticket (.error failure) :: between)).call key).1 = some next ∧
      ticket < next
  counted : (after c events).cache.hits + (after c events).cache.misses =
    c.hits + c.misses + events.countP Event.isCall
  started : (after c events).cache.misses = c.misses + (tickets { cache := c } events).length
  /-- Each computation that is started has a ticket of its own. -/
  distinct : (tickets { cache := c } events).Nodup

theorem served_of_greet (able : 0 ≤ d.cache.capacity) {later : List Event}
    (stays : .leave d.callers.length ∉ later) :
    (∃ f, d.cache.find? key = some f ∧
      (d.run (.call key :: later)).callers[d.callers.length]? = some (.answered (.ok f))) ∨
    (d.cache.find? key = none ∧ ∃ ticket, (ticket, key) ∈ (d.step (.call key)).cache.running ∧
      match later.findSome? (Event.endOf? ticket) with
      | some result => (d.run (.call key :: later)).callers[d.callers.length]? = some (.answered result)
      | none => (d.run (.call key :: later)).callers[d.callers.length]? = some (.waiting ticket) ∧
          (ticket, key) ∈ (d.run (.call key :: later)).cache.running) := by
  have there : (d.step (.call key)).callers[d.callers.length]? = some (d.greet key) := by
    show (d.call key).2.callers[d.callers.length]? = _
    rw [call_snd]
    exact List.getElem?_concat_length
  -- What becomes of the caller is told by its greeting and by the end of the computation it waits for.
  have course := run_caller (able_step able (.call key)) there later
  rw [← run_cons] at course
  cases stored : d.cache.find? key with
  | some f =>
    refine .inl ⟨f, rfl, ?_⟩
    rw [course, greet, stored, foldl_onCaller_answered]
  | none =>
    have waits : d.greet key = .waiting ((d.cache.ticketOf? key).getD d.cache.issued) := by
      rw [greet, stored]
    have running : ((d.cache.ticketOf? key).getD d.cache.issued, key) ∈ (d.step (.call key)).cache.running := by
      rw [step_cache]
      exact mem_running_of_greet waits
    refine .inr ⟨rfl, _, running, ?_⟩
    rw [waits, foldl_onCaller_waiting stays] at course
    cases ends : later.findSome? (Event.endOf? ((d.cache.ticketOf? key).getD d.cache.issued)) with
    | some result =>
      rw [ends] at course
      exact course
    | none =>
      rw [ends] at course
      refine ⟨course, ?_⟩
      rw [run_cons, mem_running_run]
      refine .inl ⟨running, fun result ended => ?_⟩
      have open_ := List.findSome?_eq_none_iff.mp ends _ ended
      simp [Event.endOf?] at open_

/-- Callers share the computations of a cache, whatever the order in which calls, ends, departures and
removals come. -/
theorem calls_share_computations {c : Cache} (able : 0 ≤ c.capacity) (idle : c.running = [])
    (events : List Event) : Shares c events where
  running ticket key := by
    refine mem_running_run.trans (or_iff_right ?_)
    rintro ⟨there, -⟩
    rw [idle] at there
    cases there
  alone := (exclusive_run (.of_idle idle) events).keys
  served before key later split stays := by
    subst split
    rw [after_append, after_append]
    exact served_of_greet (able_run able before) stays
  undisturbed before caller later split := by
    subst split
    rw [after_append, after_append]
    exact (SameBut.leave _ caller).run later
  unsaved before ticket failure later split := by
    rw [after_append, run_cons, run_nil, step_cache, Event.onCache, Cache.settle_failed]
  retried before ticket failure between key later split there uncalled := by
    have exclusive := exclusive_run (d := { cache := c }) (.of_idle idle) before
    -- The failed computation ran alone under its key, and the key stays absent until the next call.
    have lacks := exclusive.lacks_of_failed there failure
    rw [after_append]
    refine ⟨_, call_fst_eq_some.mpr ⟨?_, rfl⟩, ?_⟩
    · rw [run_cons]
      apply lacks_run _ uncalled
      rw [step_cache]
      exact lacks
    · rw [(misses_issued_run _ _).2]
      exact Nat.lt_add_right _ (exclusive.issued _ there)
  counted := hits_add_misses_run _ events
  started := (misses_issued_run _ events).1
  distinct := by
    rw [tickets_eq_range']
    exact List.nodup_range'

/-- Two callers share a computation that fails, but for the one who leaves, and the third caller has it done
again. -/
theorem calls_share_computations_retried :
    let key : CacheKey := ⟨.text "n", 8, "", ""⟩
    let events : List Event := [.call key, .call key, .leave 0, .finish 0 (.error .tooLarge), .call key,
      .finish 1 (.ok {})]
    (after { capacity := 1 } events).callers = [.left, .answered (.error .tooLarge), .answered (.ok {})] ∧
      Shares { capacity := 1 } events :=
  ⟨rfl, calls_share_computations (by decide) rfl _⟩

/-! ## Calls that come together -/

/-- A fold that makes a call at each step runs the calls. -/
theorem foldl_snd_eq_run {f : List Job × Desk → Call → List Job × Desk}
    (makes : ∀ x call, (f x call).2 = (x.2.call call.key).2) (calls : List Call) :
    ∀ x, (calls.foldl f x).2 = x.2.run (calls.map fun call => .call call.key) := by
  induction calls with
  | nil => exact fun _ => rfl
  | cons call calls ih =>
    intro x
    rw [List.foldl_cons, List.map_cons, run_cons, ih, makes]
    rfl

theorem welcome_eq_run (d : Desk) (calls : List Call) :
    (d.welcome calls).2 = d.run (calls.map fun call => .call call.key) := by
  refine foldl_snd_eq_run (fun x call => ?_) calls ([], d)
  obtain ⟨jobs, d⟩ := x
  dsimp only
  generalize d.call call.key = answer
  obtain ⟨_ | ticket, next⟩ := answer <;> rfl

/-- To serve calls that come together is one of the orders in which things can happen. -/
theorem serve_eq_after (c : Cache) (calls : List Call) : (serve c calls).2 =
    after c
      ((calls.map fun call => .call call.key) ++
        (calls.zipIdx.filterMap fun (call, i) => if call.leaves then some (.leave i) else none) ++
        (serve c calls).1.map fun (ticket, call) => .finish ticket call.result) := by
  have departures : ∀ (arrived : List (Call × Nat)) (d : Desk),
      arrived.foldl (fun d (call, i) => if call.leaves then d.leave i else d) d =
        d.run (arrived.filterMap fun (call, i) => if call.leaves then some (.leave i) else none) := by
    intro arrived
    induction arrived with
    | nil => exact fun _ => rfl
    | cons first arrived ih =>
      intro d
      rw [List.foldl_cons, ih, List.filterMap_cons]
      by_cases goes : first.1.leaves
      · simp only [goes, if_true, run_cons, step]
      · simp only [goes, Bool.false_eq_true, if_false]
  have ends : ∀ (jobs : List Job) (d : Desk),
      jobs.foldl (fun d (ticket, call) => d.finish ticket call.result) d =
        d.run (jobs.map fun (ticket, call) => .finish ticket call.result) := by
    intro jobs d
    rw [run, List.foldl_map]
    rfl
  rw [after_append, after_append]
  unfold serve
  show List.foldl _ (List.foldl _ (welcome { cache := c } calls).2 _) _ = _
  rw [departures, ends, welcome_eq_run]
  rfl

end VectorGraph.Desk
