import VectorGraph.Proofs.Cache.Desk

/-!
What outlives a removal.

A removal takes away what is stored and nothing else: a computation of the node that is under way goes on, and
what it ends with is stored and handed out as if nothing had been removed. So whatever a cache has of a node
after a removal was ended after it (`Desk.removal_renews`), but need not have been started after it
(`Desk.removal_overtaken`).
-/
namespace VectorGraph.Desk

variable {d : Desk} {key : CacheKey} {event : Event} {events : List Event} {i ticket : Nat} {f : Fragment}
  {n : Label}

/-- The event removes the entries of the node. -/
def Event.Removes (n : Label) : Event → Prop
  | .invalidateNode v => v = n
  | .invalidate g v => n ∈ v :: g.descendants v
  | _ => False

theorem Event.Removes.none_left (removes : event.Removes n) :
    ∀ x ∈ (d.step event).cache.entries, x.1.node ≠ n := by
  intro x hx same
  rw [step_cache] at hx
  cases event with
  | invalidateNode v =>
    obtain rfl : v = n := removes
    obtain ⟨-, other⟩ := List.mem_filter.mp hx
    rw [same, bne_self_eq_false] at other
    cases other
  | invalidate g v =>
    rw [onCache, Cache.invalidate_snd] at hx
    obtain ⟨-, other⟩ := List.mem_filter.mp hx
    rw [same, List.contains_iff_mem.mpr removes] at other
    cases other
  | call k => exact removes
  | finish t result => exact removes
  | leave caller => exact removes

theorem Event.Removes.running (removes : event.Removes n) :
    (d.step event).cache.running = d.cache.running := by
  rw [step_cache]
  cases event with
  | invalidateNode v => rfl
  | invalidate g v => exact (d.cache.invalidate_shrinks g v).1
  | call k => exact removes.elim
  | finish t result => exact removes.elim
  | leave caller => exact removes.elim

/-! ## Where fragments come from -/

/-- In the course of the events a computation of the key that is under way ends with the fragment. -/
def Yields (d : Desk) (events : List Event) (key : CacheKey) (f : Fragment) : Prop :=
  ∃ before ticket later, events = before ++ .finish ticket (.ok f) :: later ∧
    (ticket, key) ∈ (d.run before).cache.running

namespace Yields

theorem here (running : (ticket, key) ∈ d.cache.running) :
    Yields d (.finish ticket (.ok f) :: events) key f :=
  ⟨[], ticket, events, rfl, running⟩

theorem of_run (earlier : List Event) (h : Yields (d.run earlier) events key f) :
    Yields d (earlier ++ events) key f := by
  obtain ⟨before, ticket, later, rfl, running⟩ := h
  exact ⟨earlier ++ before, ticket, later, (List.append_assoc ..).symm, by rwa [run_append]⟩

theorem of_step (h : Yields (d.step event) events key f) : Yields d (event :: events) key f :=
  of_run [event] h

theorem append (h : Yields d events key f) (more : List Event) : Yields d (events ++ more) key f := by
  obtain ⟨before, ticket, later, rfl, running⟩ := h
  exact ⟨before, ticket, later ++ more, by rw [List.append_assoc, List.cons_append], running⟩

end Yields

/-- Only the end of a computation that is under way adds an entry. -/
theorem mem_entries_step {x : CacheKey × Fragment} (h : x ∈ (d.step event).cache.entries) :
    x ∈ d.cache.entries ∨ ∃ ticket, event = .finish ticket (.ok x.2) ∧ (ticket, x.1) ∈ d.cache.running := by
  rw [step_cache] at h
  cases event with
  | call k => exact .inl (Cache.mem_entries_request.mp h)
  | finish t result =>
    rcases d.cache.settle_cases t result with ⟨-, same⟩ | ⟨k, there, spec⟩
    · rw [Event.onCache, same] at h
      exact .inl h
    · rcases spec.entries x h with h | ⟨g, rfl, answer⟩
      · exact .inl h
      · exact .inr ⟨t, by rw [spec.answered g answer], there⟩
  | leave caller => exact .inl h
  | invalidateNode v => exact .inl ((d.cache.invalidateNode_shrinks v).2.2.2 x h)
  | invalidate g v => exact .inl ((d.cache.invalidate_shrinks g v).2.2.2 x h)

/-- What is stored at the end was stored at the start, or a computation has ended with it meanwhile. -/
theorem mem_entries_run {x : CacheKey × Fragment} (h : x ∈ (d.run events).cache.entries) :
    x ∈ d.cache.entries ∨ Yields d events x.1 x.2 := by
  induction events generalizing d with
  | nil => exact .inl h
  | cons event events ih =>
    rcases ih h with h | yields
    · rcases mem_entries_step h with h | ⟨ticket, rfl, running⟩
      · exact .inl h
      · exact .inr (.here running)
    · exact .inr yields.of_step

/-- Who waits for a computation and gets a fragment has it from the end of that computation. -/
theorem yields_of_answered (there : d.callers[i]? = some (.waiting ticket))
    (running : (ticket, key) ∈ d.cache.running)
    (answered : (d.run events).callers[i]? = some (.answered (.ok f))) : Yields d events key f := by
  induction events generalizing d with
  | nil =>
    rw [run_nil, there] at answered
    cases answered
  | cons event events ih =>
    have next := step_caller there event
    by_cases ends : ∃ result, event = .finish ticket result
    · obtain ⟨result, rfl⟩ := ends
      have treated : d.treat i (.finish ticket result) (.waiting ticket) =
          .answered (d.cache.settle ticket result).1 := if_pos rfl
      rw [treated] at next
      rw [run_cons, run_settled next (fun t => by simp), Option.some.injEq, Caller.answered.injEq] at answered
      rcases d.cache.settle_cases ticket result with ⟨idle, -⟩ | ⟨k, -, spec⟩
      · exact absurd rfl (idle _ running)
      · rw [spec.answered f answered]
        exact .here running
    · -- any other event leaves the computation under way, and the caller waits on or has left
      have goes : (ticket, key) ∈ (d.step event).cache.running :=
        mem_running_step.mpr (.inl ⟨running, fun result same => ends ⟨result, same⟩⟩)
      by_cases left : event = .leave i
      · subst left
        have treated : d.treat i (.leave i) (.waiting ticket) = .left := if_pos rfl
        rw [treated] at next
        rw [run_cons, run_settled next (fun t => by simp)] at answered
        cases answered
      · have treated : d.treat i event (.waiting ticket) = .waiting ticket := by
          cases event with
          | finish t result => exact if_neg fun same : ticket = t => ends ⟨result, by rw [same]⟩
          | leave j => exact if_neg fun same : i = j => left (by rw [same])
          | _ => rfl
        rw [treated] at next
        exact (ih next goes answered).of_step

/-- A fragment that a caller has in the end was stored at the time of the call, or a computation of the key
has ended with it. -/
theorem yields_of_call (answered : (d.run (.call key :: events)).callers[d.callers.length]? =
    some (.answered (.ok f))) : (key, f) ∈ d.cache.entries ∨ Yields d (.call key :: events) key f := by
  have next : (d.step (.call key)).callers[d.callers.length]? = some (d.greet key) := by
    show (d.call key).2.callers[d.callers.length]? = _
    rw [call_snd]
    exact List.getElem?_concat_length
  cases waits : d.greet key with
  | waiting ticket =>
    have running : (ticket, key) ∈ (d.step (.call key)).cache.running := by
      rw [step_cache]
      exact mem_running_of_greet waits
    exact .inr (yields_of_answered (waits ▸ next) running answered).of_step
  | answered result =>
    rw [waits] at next
    rw [run_cons, run_settled next (fun t => by simp), Option.some.injEq, Caller.answered.injEq] at answered
    subst answered
    obtain ⟨g, same, stored⟩ := find?_of_greet waits
    cases same
    exact .inl (Cache.mem_of_find? stored)
  | left => exact absurd waits greet_ne_left

/-! ## Removal -/

/-- A computation of the key ends with the fragment in the course of the events. It is under way when they
begin, or is started in their course. -/
def Renewed (d : Desk) (events : List Event) (key : CacheKey) (f : Fragment) : Prop :=
  ∃ before ticket later, events = before ++ .finish ticket (.ok f) :: later ∧
    ((ticket, key) ∈ d.cache.running ∨
      ∃ earlier between, before = earlier ++ .call key :: between ∧
        ((d.run earlier).call key).1 = some ticket)

theorem Yields.renewed (h : Yields d events key f) : Renewed d events key f := by
  obtain ⟨before, ticket, later, split, running⟩ := h
  refine ⟨before, ticket, later, split, ?_⟩
  rcases mem_running_run.mp running with ⟨there, -⟩ | ⟨earlier, between, split, started, -⟩
  · exact .inl there
  · exact .inr ⟨earlier, between, split, started⟩

/-- After the removal of a node nothing that was stored of it is there or is handed out: every entry of the
node, and every fragment that a later call for a key of the node gets, is what a computation has ended with
after the removal. -/
theorem removal_renews (d : Desk) {removal : Event} {n : Label} (removes : removal.Removes n)
    (events : List Event) :
    (d.step removal).cache.running = d.cache.running ∧
    (∀ x ∈ ((d.step removal).run events).cache.entries, x.1.node = n →
      Renewed (d.step removal) events x.1 x.2) ∧
    ∀ before key later f, events = before ++ .call key :: later → key.node = n →
      ((d.step removal).run events).callers[((d.step removal).run before).callers.length]? =
        some (.answered (.ok f)) →
      Renewed (d.step removal) events key f := by
  -- what is stored of the node at any later time has been yielded since the removal
  have entries : ∀ events, ∀ x ∈ ((d.step removal).run events).cache.entries, x.1.node = n →
      Yields (d.step removal) events x.1 x.2 := by
    intro events x hx same
    exact (mem_entries_run hx).resolve_left fun there => removes.none_left x there same
  refine ⟨removes.running, fun x hx same => (entries events x hx same).renewed, ?_⟩
  rintro before key later f rfl same answered
  rw [run_append] at answered
  rcases yields_of_call answered with stored | yields
  · exact ((entries before (key, f) stored same).append _).renewed
  · exact (yields.of_run before).renewed

/-- A node that is removed while it is computed is stored again by that computation, and whoever calls for it
meanwhile gets the fragment that was begun before the removal. -/
theorem removal_overtaken :
    let key : CacheKey := ⟨.text "n", 8, "", ""⟩
    let events : List Event :=
      [.call key, .invalidateNode (.text "n"), .call key, .finish 0 (.ok {}), .call key]
    ((after { capacity := 1 } []).call key).1 = some 0 ∧
      (after { capacity := 1 } events).cache.entries = [(key, {})] ∧
      (after { capacity := 1 } events).cache.issued = 1 ∧
      (after { capacity := 1 } events).callers =
        [.answered (.ok {}), .answered (.ok {}), .answered (.ok {})] :=
  ⟨rfl, rfl, rfl, rfl⟩

/-- After that removal the fragment has come from the computation that the removal found under way. -/
theorem removal_renews_overtaken :
    let key : CacheKey := ⟨.text "n", 8, "", ""⟩
    let d := after { capacity := 1 } [.call key]
    Event.Removes (.text "n") (.invalidateNode (.text "n")) ∧
      Renewed (d.step (.invalidateNode (.text "n"))) [.finish 0 (.ok {})] key {} := by
  intro key d
  have removes : Event.Removes (.text "n") (.invalidateNode (.text "n")) := rfl
  refine ⟨removes, (removal_renews d removes [.finish 0 (.ok {})]).2.1 (key, {}) ?_ rfl⟩
  have stored : ((d.step (.invalidateNode (.text "n"))).run [.finish 0 (.ok {})]).cache.entries = [(key, {})] :=
    rfl
  rw [stored]
  exact List.mem_singleton_self _

end VectorGraph.Desk
