import Mathlib.Data.List.Basic
import VectorGraph.Cache.Basic

/-!
What each operation of a cache does to its entries and to its computations under way.

A look-up changes the order of the entries and nothing else. The end of a computation takes it off the list
of those under way and adds at most its own entry (`Cache.SettledAs`). Removal takes entries away.
-/
namespace VectorGraph.Cache

variable {cache : Cache} {key : CacheKey} {ticket : Nat} {result : Except Failure Fragment}

theorem touch_perm (cache : Cache) (key : CacheKey) : (cache.touch key).entries.Perm cache.entries := by
  have split := List.filter_append_perm (fun x : CacheKey × Fragment => x.1 == key) cache.entries
  exact List.perm_append_comm.trans split

theorem mem_touch {x : CacheKey × Fragment} : x ∈ (cache.touch key).entries ↔ x ∈ cache.entries :=
  (touch_perm cache key).mem_iff

theorem mem_of_find? {f : Fragment} (h : cache.find? key = some f) : (key, f) ∈ cache.entries := by
  obtain ⟨x, hx, rfl⟩ := Option.map_eq_some_iff.mp h
  have hk := List.find?_some hx
  rw [beq_iff_eq] at hk
  exact hk ▸ List.mem_of_find?_eq_some hx

theorem mem_of_ticketOf? (h : cache.ticketOf? key = some ticket) : (ticket, key) ∈ cache.running := by
  obtain ⟨x, hx, rfl⟩ := Option.map_eq_some_iff.mp h
  have hk := List.find?_some hx
  rw [beq_iff_eq] at hk
  exact hk ▸ List.mem_of_find?_eq_some hx

theorem find?_eq_none_iff : cache.find? key = none ↔ ∀ x ∈ cache.entries, x.1 ≠ key := by
  simp [find?]

theorem ticketOf?_eq_none_iff : cache.ticketOf? key = none ↔ ∀ x ∈ cache.running, x.2 ≠ key := by
  simp [ticketOf?]

/-! ## Requests -/

theorem request_found {f : Fragment} (stored : cache.find? key = some f) :
    cache.request key = (.found f, { cache.touch key with hits := cache.hits + 1 }) := by
  simp only [request, stored]

theorem request_joined (missing : cache.find? key = none) (known : cache.ticketOf? key = some ticket) :
    cache.request key = (.joined ticket, { cache with hits := cache.hits + 1 }) := by
  simp only [request, missing, known]

theorem request_started (missing : cache.find? key = none) (unknown : cache.ticketOf? key = none) :
    cache.request key =
      (.started cache.issued,
        { cache with
          running := cache.running ++ [(cache.issued, key)]
          issued := cache.issued + 1
          misses := cache.misses + 1 }) := by
  simp only [request, missing, unknown]

/-- A request stores nothing. -/
theorem request_perm (cache : Cache) (key : CacheKey) : (cache.request key).2.entries.Perm cache.entries := by
  cases stored : cache.find? key with
  | some f =>
    rw [request_found stored]
    exact touch_perm cache key
  | none =>
    cases known : cache.ticketOf? key with
    | some ticket => rw [request_joined stored known]
    | none => rw [request_started stored known]

theorem mem_entries_request {x : CacheKey × Fragment} :
    x ∈ (cache.request key).2.entries ↔ x ∈ cache.entries :=
  (request_perm cache key).mem_iff

/-! ## Ends of computations -/

/-- What is stored is there only if the cache can store at all. -/
theorem mem_store {f : Fragment} {x : CacheKey × Fragment} (h : x ∈ (cache.store key f).entries) :
    x ∈ cache.entries ∨ (x = (key, f) ∧ cache.accepts = true) := by
  simp only [store, keepRecent] at h
  have hmem := List.mem_of_mem_drop h
  rw [List.mem_append, List.mem_filter, List.mem_singleton] at hmem
  rcases hmem with ⟨hmem, -⟩ | rfl
  · exact .inl hmem
  · refine .inr ⟨rfl, ?_⟩
    have hlt := (List.length_pos_of_mem h)
    rw [List.length_drop] at hlt
    simp only [accepts, decide_eq_true_eq]
    omega

/-- How a computation that is running ends. -/
structure SettledAs (cache : Cache) (ticket : Nat) (key : CacheKey) (result : Except Failure Fragment)
    (answer : Except Failure Fragment) (after : Cache) : Prop where
  capacity : after.capacity = cache.capacity
  issued : after.issued = cache.issued
  running : after.running = cache.running.filter (·.1 != ticket)
  entries : ∀ x ∈ after.entries, x ∈ cache.entries ∨ ∃ f, x = (key, f) ∧ answer = .ok f
  answered : ∀ f, answer = .ok f → result = .ok f
  accepted : 0 ≤ cache.capacity → answer = result

theorem settle_settledAs (found : cache.running.find? (·.1 == ticket) = some (ticket, key)) :
    SettledAs cache ticket key result (cache.settle ticket result).1 (cache.settle ticket result).2 := by
  unfold settle
  rw [found]
  cases result with
  | error failure =>
    exact ⟨rfl, rfl, rfl, fun x hx => .inl hx, fun _ h => h, fun _ => rfl⟩
  | ok f =>
    refine ⟨rfl, rfl, rfl, fun x hx => ?_, fun g hg => ?_, fun h => ?_⟩
    · rcases mem_store hx with hx | ⟨rfl, able⟩
      · exact .inl hx
      · refine .inr ⟨f, rfl, ?_⟩
        simp only [put, able, if_true]
        rfl
    · simp only [put] at hg
      split at hg
      · exact hg
      · cases hg
    · have able : cache.accepts = true := by simpa [accepts] using h
      change Except.map _ (if cache.accepts = true then _ else _) = _
      rw [if_pos able]
      rfl

/-- The end of a computation that is not under way changes nothing; any other end is that of a computation
under way. -/
theorem settle_cases (cache : Cache) (ticket : Nat) (result : Except Failure Fragment) :
    ((∀ x ∈ cache.running, x.1 ≠ ticket) ∧ cache.settle ticket result = (result, cache)) ∨
    ∃ key, (ticket, key) ∈ cache.running ∧
      SettledAs cache ticket key result (cache.settle ticket result).1 (cache.settle ticket result).2 := by
  cases found : cache.running.find? (·.1 == ticket) with
  | none =>
    refine .inl ⟨fun x hx same => ?_, by simp only [settle, found]⟩
    exact List.find?_eq_none.mp found x hx (by simpa using same)
  | some x =>
    obtain ⟨t, key⟩ := x
    obtain rfl : t = ticket := by simpa using List.find?_some found
    exact .inr ⟨key, List.mem_of_find?_eq_some found, settle_settledAs found⟩

theorem settle_fst (able : 0 ≤ cache.capacity) : (cache.settle ticket result).1 = result := by
  rcases settle_cases cache ticket result with ⟨-, same⟩ | ⟨key, -, spec⟩
  · rw [same]
  · exact spec.accepted able

/-- A failure stores nothing. -/
theorem settle_failed (cache : Cache) (ticket : Nat) (failure : Failure) :
    cache.settle ticket (.error failure) =
      (.error failure, { cache with running := cache.running.filter (·.1 != ticket) }) := by
  unfold settle
  cases found : cache.running.find? (·.1 == ticket) with
  | some x => rfl
  | none =>
    have idle : cache.running.filter (·.1 != ticket) = cache.running := by
      refine List.filter_eq_self.mpr fun x hx => ?_
      simpa [bne] using List.find?_eq_none.mp found x hx
    rw [idle]

theorem settle_running (cache : Cache) (ticket : Nat) (result : Except Failure Fragment) :
    (cache.settle ticket result).2.running = cache.running.filter (·.1 != ticket) := by
  rcases settle_cases cache ticket result with ⟨idle, same⟩ | ⟨key, -, spec⟩
  · rw [same]
    exact (List.filter_eq_self.mpr fun x hx => bne_iff_ne.mpr (idle x hx)).symm
  · exact spec.running

/-- Only requests are counted. -/
theorem settle_counts (cache : Cache) (ticket : Nat) (result : Except Failure Fragment) :
    (cache.settle ticket result).2.hits = cache.hits ∧ (cache.settle ticket result).2.misses = cache.misses := by
  unfold settle
  cases cache.running.find? (·.1 == ticket) with
  | none => exact ⟨rfl, rfl⟩
  | some x => cases result <;> exact ⟨rfl, rfl⟩

/-! ## Removal -/

theorem invalidateNode_shrinks (cache : Cache) (v : Label) :
    (cache.invalidateNode v).2.running = cache.running ∧
    (cache.invalidateNode v).2.issued = cache.issued ∧
    (cache.invalidateNode v).2.capacity = cache.capacity ∧
    ∀ x ∈ (cache.invalidateNode v).2.entries, x ∈ cache.entries :=
  ⟨rfl, rfl, rfl, fun _ hx => (List.mem_filter.mp hx).1⟩

/-- One more node is invalidated, and its entries are counted in. -/
def invalidateNext (counted : Nat × Cache) (v : Label) : Nat × Cache :=
  (counted.1 + (counted.2.invalidateNode v).1, (counted.2.invalidateNode v).2)

theorem invalidate_eq_foldl (cache : Cache) (g : Graph) (v : Label) :
    cache.invalidate g v = (g.descendants v).foldl invalidateNext (cache.invalidateNode v) := rfl

theorem foldl_invalidateNext_snd (vs : List Label) : ∀ counted : Nat × Cache,
    (vs.foldl invalidateNext counted).2 =
      { counted.2 with entries := counted.2.entries.filter fun x => !vs.contains x.1.node } := by
  induction vs with
  | nil =>
    intro counted
    have all : (counted.2.entries.filter fun x => !([] : List Label).contains x.1.node) = counted.2.entries :=
      List.filter_eq_self.mpr fun _ _ => rfl
    rw [List.foldl_nil, all]
  | cons v rest ih =>
    intro counted
    rw [List.foldl_cons, ih]
    simp only [invalidateNext, invalidateNode, List.filter_filter, List.contains_cons, Bool.not_or, bne,
      Bool.and_comm]

/-- Removal takes away the entries of the node and of all nodes that depend on it, and does nothing else. -/
theorem invalidate_snd (cache : Cache) (g : Graph) (v : Label) : (cache.invalidate g v).2 =
    { cache with
      entries := cache.entries.filter fun x => !(v :: g.descendants v).contains x.1.node } := by
  rw [invalidate_eq_foldl, foldl_invalidateNext_snd]
  simp only [invalidateNode, List.filter_filter, List.contains_cons, Bool.not_or, bne, Bool.and_comm]

theorem invalidateNode_parts (cache : Cache) (v : Label) :
    (cache.invalidateNode v).1 + (cache.invalidateNode v).2.entries.length = cache.entries.length :=
  (List.length_eq_length_filter_add _).symm

/-- What has been counted and what is left are the whole all along. -/
theorem foldl_invalidateNext_parts (vs : List Label) : ∀ counted : Nat × Cache,
    (vs.foldl invalidateNext counted).1 + (vs.foldl invalidateNext counted).2.entries.length =
      counted.1 + counted.2.entries.length := by
  induction vs with
  | nil => exact fun _ => rfl
  | cons v rest ih =>
    intro counted
    rw [List.foldl_cons, ih, invalidateNext, Nat.add_assoc, invalidateNode_parts]

/-- The number told is that of the entries taken away, however often a node is met among those that depend on it. -/
theorem invalidate_fst (cache : Cache) (g : Graph) (v : Label) : (cache.invalidate g v).1 =
    (cache.entries.filter fun x => (v :: g.descendants v).contains x.1.node).length := by
  have whole : (cache.invalidate g v).1 + (cache.invalidate g v).2.entries.length = cache.entries.length := by
    rw [invalidate_eq_foldl, foldl_invalidateNext_parts, invalidateNode_parts]
  have parts := List.length_eq_length_filter_add (l := cache.entries)
    fun x => (v :: g.descendants v).contains x.1.node
  rw [invalidate_snd, parts] at whole
  exact Nat.add_right_cancel whole

/-- Entries are dropped, and nothing else happens to the cache. -/
theorem invalidate_shrinks (cache : Cache) (g : Graph) (v : Label) :
    (cache.invalidate g v).2.running = cache.running ∧
    (cache.invalidate g v).2.issued = cache.issued ∧
    (cache.invalidate g v).2.capacity = cache.capacity ∧
    ∀ x ∈ (cache.invalidate g v).2.entries, x ∈ cache.entries := by
  rw [invalidate_snd]
  exact ⟨rfl, rfl, rfl, fun _ hx => (List.mem_filter.mp hx).1⟩

end VectorGraph.Cache
