import VectorGraph.Proofs.Cache.Operations
import VectorGraph.Proofs.Engine.Moves

/-!
The books of the caches against the computations that were started.

A computation is never forgotten, so that the list of computations is the history that the caches are
held against: what a cache lists as running are the computations of it that have not ended, each under
its own key and ticket, and every entry is what some computation has ended with, under the key of that
computation. Each operation of a cache keeps the books.
-/
namespace VectorGraph

/-! ## Places of a list -/

section Places

variable {α : Type} {l : List α} {a b : α} {i j : Nat}

/-- What stands in a list after one of its places was filled anew. -/
theorem getElem?_set_cases (h : (l.set i a)[j]? = some b) : (j = i ∧ b = a) ∨ (j ≠ i ∧ l[j]? = some b) := by
  by_cases same : j = i
  · subst same
    have low : j < (l.set j a).length := (List.getElem?_eq_some_iff.mp h).1
    rw [List.length_set] at low
    rw [List.getElem?_set_self low] at h
    exact .inl ⟨rfl, (Option.some.inj h).symm⟩
  · rw [List.getElem?_set_ne (Ne.symm same)] at h
    exact .inr ⟨same, h⟩

theorem getElem?_set_of_ne (other : j ≠ i) (h : l[j]? = some b) : (l.set i a)[j]? = some b :=
  (List.getElem?_set_ne (Ne.symm other)).trans h

theorem getD_set (low : j < l.length) (d : α) : (l.set i a).getD j d = if i = j then a else l.getD j d := by
  rw [List.getD_eq_getElem?_getD]
  by_cases same : i = j
  · subst same
    rw [List.getElem?_set_self low, if_pos rfl]
    rfl
  · rw [List.getElem?_set_ne same, if_neg same, List.getD_eq_getElem?_getD]

/-- What stands in a list after something was put last. -/
theorem getElem?_concat_cases (h : (l ++ [a])[j]? = some b) : l[j]? = some b ∨ (j = l.length ∧ b = a) := by
  rw [List.getElem?_append] at h
  split at h
  · exact .inl h
  · next high =>
    rw [List.getElem?_singleton] at h
    split at h
    · exact .inr ⟨by omega, (Option.some.inj h).symm⟩
    · cases h

theorem getElem?_concat_of_some (h : l[j]? = some b) : (l ++ [a])[j]? = some b := by
  rw [List.getElem?_append_left (List.getElem?_eq_some_iff.mp h).1, h]

end Places

/-! ## Computations later on -/

namespace Computation

/-- The computation has not ended. -/
def Open (c : Computation) : Prop := ∀ r, c.stage ≠ .ended r

/-- `d` is `c` later on: what was asked for is the same, and an end is final. -/
structure Later (c d : Computation) : Prop where
  store : d.store = c.store
  ticket : d.ticket = c.ticket
  pass : d.pass = c.pass
  node : d.node = c.node
  inputs : d.inputs = c.inputs
  ended : ∀ r, c.stage = .ended r → d.stage = .ended r

theorem Later.refl (c : Computation) : Later c c := ⟨rfl, rfl, rfl, rfl, rfl, fun _ h => h⟩

theorem Later.trans {a b c : Computation} (h : Later a b) (h' : Later b c) : Later a c :=
  ⟨h'.store.trans h.store, h'.ticket.trans h.ticket, h'.pass.trans h.pass, h'.node.trans h.node,
    h'.inputs.trans h.inputs, fun r hr => h'.ended r (h.ended r hr)⟩

theorem Open.stage {c : Computation} (h : c.Open) (s : Stage) : Later c { c with stage := s } :=
  ⟨rfl, rfl, rfl, rfl, rfl, fun r hr => absurd hr (h r)⟩

theorem open_of_queued {c : Computation} (h : c.stage = .queued) : c.Open := fun r hr => by
  rw [h] at hr
  cases hr

theorem open_of_painting {c : Computation} {request : RasterRequest}
    {resume : Except RasterFault Picture → Outcome} (h : c.stage = .painting request resume) : c.Open := fun r hr => by
  rw [h] at hr
  cases hr

/-- A computation that has ended is another one. -/
theorem Open.ne_of_ended {c d : Computation} {cs : List Computation} {i j : Nat} {r : Except Failure Fragment}
    (h : c.Open) (hc : cs[i]? = some c) (hd : cs[j]? = some d) (ended : d.stage = .ended r) : j ≠ i := by
  rintro rfl
  obtain rfl := Option.some.inj (hc.symm.trans hd)
  exact h r ended

end Computation

/-- Every computation is still there, later on. -/
def AllLater (cs ds : List Computation) : Prop :=
  ∀ (i : Nat) (c : Computation), cs[i]? = some c → ∃ d : Computation, ds[i]? = some d ∧ c.Later d

namespace AllLater

theorem refl (cs : List Computation) : AllLater cs cs := fun _ c h => ⟨c, h, .refl c⟩

theorem trans {as bs cs : List Computation} (h : AllLater as bs) (h' : AllLater bs cs) :
    AllLater as cs := by
  intro i a ha
  obtain ⟨b, hb, hab⟩ := h i a ha
  obtain ⟨c, hc, hbc⟩ := h' i b hb
  exact ⟨c, hc, hab.trans hbc⟩

theorem append (cs ds : List Computation) : AllLater cs (cs ++ ds) := by
  intro i c h
  have hi : i < cs.length := (List.getElem?_eq_some_iff.mp h).1
  exact ⟨c, by rw [List.getElem?_append_left hi, h], .refl c⟩

theorem map {f : Computation → Computation} (h : ∀ c : Computation, c.Later (f c)) (cs : List Computation) :
    AllLater cs (cs.map f) := by
  intro i c hc
  exact ⟨f c, by rw [List.getElem?_map, hc]; rfl, h c⟩

theorem set {cs : List Computation} {i : Nat} {c d : Computation} (hc : cs[i]? = some c)
    (h : c.Later d) : AllLater cs (cs.set i d) := by
  intro j c' hc'
  by_cases hij : j = i
  · subst hij
    obtain rfl := Option.some.inj (hc.symm.trans hc')
    exact ⟨d, List.getElem?_set_self (List.getElem?_eq_some_iff.mp hc).1, h⟩
  · exact ⟨c', getElem?_set_of_ne hij hc', .refl c'⟩

theorem length_le {cs ds : List Computation} (h : AllLater cs ds) : cs.length ≤ ds.length := by
  by_contra short
  obtain ⟨d, hd, -⟩ := h ds.length _ (List.getElem?_eq_getElem (Nat.lt_of_not_le short))
  exact absurd (List.getElem?_eq_some_iff.mp hd).1 (Nat.lt_irrefl _)

end AllLater

/-- The caches against the computations, where `key` tells the key of a computation. -/
structure Books (key : Computation → CacheKey) (caches : List Cache) (cs : List Computation) :
    Prop where
  /-- The ticket of a computation was issued by its cache. -/
  issued : ∀ (i : Nat) (c : Computation), cs[i]? = some c →
    ∃ cache : Cache, caches[c.store]? = some cache ∧ c.ticket < cache.issued
  /-- No ticket stands for two computations. -/
  unique : ∀ (i j : Nat) (c d : Computation), cs[i]? = some c → cs[j]? = some d →
    c.store = d.store → c.ticket = d.ticket → i = j
  /-- What is running are the computations that have not ended. -/
  running : ∀ (s : Nat) (cache : Cache), caches[s]? = some cache → ∀ t k, (t, k) ∈ cache.running ↔
    ∃ (i : Nat) (c : Computation), cs[i]? = some c ∧ c.store = s ∧ c.ticket = t ∧ c.Open ∧ key c = k
  /-- An entry is what a computation with its key has ended with. -/
  entries : ∀ (s : Nat) (cache : Cache), caches[s]? = some cache → ∀ k f, (k, f) ∈ cache.entries →
    ∃ (i : Nat) (c : Computation), cs[i]? = some c ∧ c.store = s ∧ c.stage = .ended (.ok f) ∧ key c = k

namespace Books

variable {key key' : Computation → CacheKey} {caches : List Cache} {cs ds : List Computation}

/-- Only the keys of computations that are there count. -/
theorem rekey (h : Books key caches cs) (same : ∀ (i : Nat) c, cs[i]? = some c → key' c = key c) :
    Books key' caches cs where
  issued := h.issued
  unique := h.unique
  running s cache hs t k := by
    rw [h.running s cache hs t k]
    refine exists_congr fun i => exists_congr fun c => ?_
    refine and_congr_right fun hc => ?_
    rw [same i c hc]
  entries s cache hs k f hf := by
    obtain ⟨i, c, hc, hstore, hstage, hk⟩ := h.entries s cache hs k f hf
    exact ⟨i, c, hc, hstore, hstage, by rw [same i c hc, hk]⟩

/-- Every computation of the second list is one of the first, later on. -/
def Follows (cs ds : List Computation) : Prop :=
  ∀ (i : Nat) (d : Computation), ds[i]? = some d → ∃ c : Computation, cs[i]? = some c ∧ c.Later d

theorem Follows.refl (cs : List Computation) : Follows cs cs := fun _ d hd => ⟨d, hd, .refl d⟩

theorem Follows.set {i : Nat} {c d : Computation} (hc : cs[i]? = some c) (later : c.Later d) :
    Follows cs (cs.set i d) := by
  intro j b hb
  rcases getElem?_set_cases hb with ⟨rfl, rfl⟩ | ⟨-, hb⟩
  · exact ⟨c, hc, later⟩
  · exact ⟨b, hb, .refl b⟩

/-- Tickets that were issued stay issued, if no cache goes back with the number of them. -/
theorem issued_of (h : Books key caches cs) {caches' : List Cache} (follows : Follows cs ds)
    (kept : ∀ (s : Nat) (cache : Cache), caches[s]? = some cache →
      ∃ new : Cache, caches'[s]? = some new ∧ cache.issued ≤ new.issued) {i : Nat} {d : Computation}
    (hd : ds[i]? = some d) : ∃ cache : Cache, caches'[d.store]? = some cache ∧ d.ticket < cache.issued := by
  obtain ⟨c, hc, later⟩ := follows i d hd
  obtain ⟨cache, hcache, below⟩ := h.issued i c hc
  obtain ⟨new, hnew, more⟩ := kept c.store cache hcache
  exact ⟨new, later.store ▸ hnew, later.ticket ▸ Nat.lt_of_lt_of_le below more⟩

theorem unique_of (h : Books key caches cs) (follows : Follows cs ds) {i j : Nat} {c d : Computation}
    (hc : ds[i]? = some c) (hd : ds[j]? = some d) (store : c.store = d.store) (ticket : c.ticket = d.ticket) :
    i = j := by
  obtain ⟨c', hc', later⟩ := follows i c hc
  obtain ⟨d', hd', later'⟩ := follows j d hd
  exact h.unique i j c' d' hc' hd' (later.store.symm.trans (store.trans later'.store))
    (later.ticket.symm.trans (ticket.trans later'.ticket))

/-- What is counted of the caches is still counted when one of them has issued no fewer tickets. -/
theorem exists_issued_set {s : Nat} {old new : Cache} (hs : caches[s]? = some old) (more : old.issued ≤ new.issued)
    (s' : Nat) (cache : Cache) (hc : caches[s']? = some cache) :
    ∃ cache' : Cache, (caches.set s new)[s']? = some cache' ∧ cache.issued ≤ cache'.issued := by
  by_cases same : s' = s
  · subst same
    obtain rfl := Option.some.inj (hs.symm.trans hc)
    exact ⟨new, List.getElem?_set_self (List.getElem?_eq_some_iff.mp hs).1, more⟩
  · exact ⟨cache, getElem?_set_of_ne same hc, Nat.le_refl _⟩

/-- The books are kept by a cache that runs the same and holds no new entry. -/
theorem shrink (h : Books key caches cs) {s : Nat} {old new : Cache} (hs : caches[s]? = some old)
    (running : new.running = old.running) (issued : new.issued = old.issued)
    (entries : ∀ x ∈ new.entries, x ∈ old.entries) : Books key (caches.set s new) cs where
  issued i c hc := h.issued_of (.refl cs) (exists_issued_set hs (Nat.le_of_eq issued.symm)) hc
  unique := h.unique
  running s' cache hc t k := by
    rcases getElem?_set_cases hc with ⟨rfl, rfl⟩ | ⟨-, hc⟩
    · rw [running]
      exact h.running s' old hs t k
    · exact h.running s' cache hc t k
  entries s' cache hc k f hf := by
    rcases getElem?_set_cases hc with ⟨rfl, rfl⟩ | ⟨-, hc⟩
    · exact h.entries s' old hs k f (entries _ hf)
    · exact h.entries s' cache hc k f hf

/-- The books do not tell who waits for a computation. -/
theorem remark (h : Books key caches cs) (waiters : Computation → List (Nat × Label))
    (same : ∀ c, key { c with waiters := waiters c } = key c) :
    Books key caches (cs.map fun c => { c with waiters := waiters c }) := by
  have back : ∀ {i : Nat} {d : Computation}, (cs.map fun c => { c with waiters := waiters c })[i]? = some d →
      ∃ c : Computation, cs[i]? = some c ∧ d = { c with waiters := waiters c } := by
    intro i d hd
    rw [List.getElem?_map] at hd
    obtain ⟨c, hc, rfl⟩ := Option.map_eq_some_iff.mp hd
    exact ⟨c, hc, rfl⟩
  have there : ∀ {i : Nat} {c : Computation}, cs[i]? = some c →
      (cs.map fun c => { c with waiters := waiters c })[i]? = some { c with waiters := waiters c } := by
    intro i c hc
    rw [List.getElem?_map, hc]
    rfl
  refine ⟨fun i d hd => ?_, fun i j d d' hd hd' => ?_, fun s cache hs t k => ?_,
    fun s cache hs k f hf => ?_⟩
  · obtain ⟨c, hc, rfl⟩ := back hd
    exact h.issued i c hc
  · obtain ⟨c, hc, rfl⟩ := back hd
    obtain ⟨c', hc', rfl⟩ := back hd'
    exact h.unique i j c c' hc hc'
  · rw [h.running s cache hs t k]
    constructor
    · rintro ⟨i, c, hc, hstore, hticket, hopen, hk⟩
      exact ⟨i, _, there hc, hstore, hticket, hopen, (same c).trans hk⟩
    · rintro ⟨i, d, hd, hstore, hticket, hopen, hk⟩
      obtain ⟨c, hc, rfl⟩ := back hd
      exact ⟨i, c, hc, hstore, hticket, hopen, (same c).symm.trans hk⟩
  · obtain ⟨i, c, hc, hstore, hstage, hk⟩ := h.entries s cache hs k f hf
    exact ⟨i, _, there hc, hstore, hstage, (same c).trans hk⟩

/-! ### Beginning a computation -/

/-- A ticket of a cache that has been issued is not the one that it issues next. -/
theorem ticket_lt (h : Books key caches cs) {cache : Cache} {i : Nat} {d : Computation} (hd : cs[i]? = some d)
    (hs : caches[d.store]? = some cache) : d.ticket < cache.issued := by
  obtain ⟨cache', hc', below⟩ := h.issued i d hd
  obtain rfl := Option.some.inj (hs.symm.trans hc')
  exact below

section Start

variable (h : Books key caches cs) {s : Nat} {cache : Cache} {c : Computation} {m : Nat}
  (hs : caches[s]? = some cache) (store : c.store = s) (ticket : c.ticket = cache.issued)

include h hs store ticket

/-- The new computation has a ticket of its own. -/
theorem unique_start {i j : Nat} {d d' : Computation} (hd : (cs ++ [c])[i]? = some d)
    (hd' : (cs ++ [c])[j]? = some d') (stores : d.store = d'.store) (tickets : d.ticket = d'.ticket) : i = j := by
  rcases getElem?_concat_cases hd with here | ⟨rfl, rfl⟩ <;>
    rcases getElem?_concat_cases hd' with here' | ⟨rfl, rfl⟩
  · exact h.unique i j d d' here here' stores tickets
  · have := h.ticket_lt here (by rw [stores, store, hs])
    omega
  · have := h.ticket_lt here' (by rw [← stores, store, hs])
    omega
  · rfl

/-- What the caches run now is what they ran, and the new computation. -/
theorem running_start (isOpen : c.Open) {s' : Nat} {cache' : Cache}
    (hs' : (caches.set s { cache with
      running := cache.running ++ [(cache.issued, key c)], issued := cache.issued + 1, misses := m })[s']? =
        some cache') (t : Nat) (k : CacheKey) :
    (t, k) ∈ cache'.running ↔ ∃ (i : Nat) (d : Computation), (cs ++ [c])[i]? = some d ∧ d.store = s' ∧
      d.ticket = t ∧ d.Open ∧ key d = k := by
  have last : (cs ++ [c])[cs.length]? = some c := List.getElem?_concat_length
  rcases getElem?_set_cases hs' with ⟨rfl, rfl⟩ | ⟨other, hs'⟩
  · simp only [List.mem_append, List.mem_singleton, Prod.mk.injEq]
    rw [h.running s' cache hs t k]
    constructor
    · rintro (⟨i, d, hd, hrest⟩ | ⟨rfl, rfl⟩)
      · exact ⟨i, d, getElem?_concat_of_some hd, hrest⟩
      · exact ⟨cs.length, c, last, store, ticket, isOpen, rfl⟩
    · rintro ⟨i, d, hd, hds, hdt, hopen, hk⟩
      rcases getElem?_concat_cases hd with hd | ⟨rfl, rfl⟩
      · exact .inl ⟨i, d, hd, hds, hdt, hopen, hk⟩
      · exact .inr ⟨hdt.symm.trans ticket, hk.symm⟩
  · rw [h.running s' cache' hs' t k]
    constructor
    · rintro ⟨i, d, hd, hrest⟩
      exact ⟨i, d, getElem?_concat_of_some hd, hrest⟩
    · rintro ⟨i, d, hd, hds, hrest⟩
      rcases getElem?_concat_cases hd with hd | ⟨rfl, rfl⟩
      · exact ⟨i, d, hd, hds, hrest⟩
      · exact absurd (hds.symm.trans store) other

end Start

/-- A cache starts a computation. -/
theorem start (h : Books key caches cs) {s : Nat} {cache : Cache} {c : Computation} {m : Nat}
    (hs : caches[s]? = some cache) (store : c.store = s) (ticket : c.ticket = cache.issued)
    (queued : c.stage = .queued) :
    Books key (caches.set s { cache with
      running := cache.running ++ [(cache.issued, key c)], issued := cache.issued + 1, misses := m })
      (cs ++ [c]) where
  issued i d hd := by
    rcases getElem?_concat_cases hd with hd | ⟨rfl, rfl⟩
    · exact h.issued_of (.refl cs) (exists_issued_set hs (Nat.le_succ _)) hd
    · exact ⟨_, by rw [store, List.getElem?_set_self (List.getElem?_eq_some_iff.mp hs).1], by simp [ticket]⟩
  unique i j d d' hd hd' stores tickets := h.unique_start hs store ticket hd hd' stores tickets
  running s' cache' hs' t k :=
    h.running_start hs store ticket (Computation.open_of_queued queued) hs' t k
  entries s' cache' hs' k f hf := by
    have old : ∃ cache'' : Cache, caches[s']? = some cache'' ∧ (k, f) ∈ cache''.entries := by
      rcases getElem?_set_cases hs' with ⟨rfl, rfl⟩ | ⟨-, hs'⟩
      · exact ⟨cache, hs, hf⟩
      · exact ⟨cache', hs', hf⟩
    obtain ⟨cache'', hc'', hf⟩ := old
    obtain ⟨i, d, hd, hrest⟩ := h.entries s' cache'' hc'' k f hf
    exact ⟨i, d, getElem?_concat_of_some hd, hrest⟩

/-! ### Going on with a computation -/

/-- The operator of a computation asks for pixels. -/
theorem paint (h : Books key caches cs) {i : Nat} {c : Computation} (hc : cs[i]? = some c)
    (isOpen : c.Open) {request : RasterRequest} {resume : Except RasterFault Picture → Outcome}
    (same : key { c with stage := .painting request resume } = key c) :
    Books key caches (cs.set i { c with stage := .painting request resume }) := by
  have hi : i < cs.length := (List.getElem?_eq_some_iff.mp hc).1
  have follows : Follows cs (cs.set i { c with stage := .painting request resume }) := .set hc (isOpen.stage _)
  have stillOpen : ({ c with stage := .painting request resume } : Computation).Open := nofun
  refine ⟨fun j d hd => h.issued_of follows (fun s cache hs => ⟨cache, hs, Nat.le_refl _⟩) hd,
    fun j k d d' hd hd' => h.unique_of follows hd hd', fun s cache hs t k => ?_, fun s cache hs k f hf => ?_⟩
  · rw [h.running s cache hs t k]
    constructor
    · rintro ⟨j, d, hd, hstore, hticket, hopen, hk⟩
      by_cases hij : j = i
      · subst hij
        obtain rfl := Option.some.inj (hc.symm.trans hd)
        exact ⟨j, _, List.getElem?_set_self hi, hstore, hticket, stillOpen, same.trans hk⟩
      · exact ⟨j, d, getElem?_set_of_ne hij hd, hstore, hticket, hopen, hk⟩
    · rintro ⟨j, d, hd, hstore, hticket, hopen, hk⟩
      rcases getElem?_set_cases hd with ⟨rfl, rfl⟩ | ⟨-, hd⟩
      · exact ⟨j, c, hc, hstore, hticket, isOpen, same.symm.trans hk⟩
      · exact ⟨j, d, hd, hstore, hticket, hopen, hk⟩
  · obtain ⟨j, d, hd, hstore, hstage, hk⟩ := h.entries s cache hs k f hf
    exact ⟨j, d, getElem?_set_of_ne (isOpen.ne_of_ended hc hd hstage) hd, hstore, hstage, hk⟩

/-- How the cache of a computation that has not ended takes its end. -/
theorem settledAs (h : Books key caches cs) {i : Nat} {c : Computation} (hc : cs[i]? = some c)
    (isOpen : c.Open) (result : Except Failure Fragment) :
    ∃ cache : Cache, caches[c.store]? = some cache ∧ caches.getD c.store default = cache ∧
      cache.SettledAs c.ticket (key c) result (cache.settle c.ticket result).1
        (cache.settle c.ticket result).2 := by
  obtain ⟨cache, hcache, -⟩ := h.issued i c hc
  -- the ticket is listed as running, and only under the key of the computation
  have mine : ∀ k, (c.ticket, k) ∈ cache.running → k = key c := by
    intro k hk
    obtain ⟨j, d, hd, hstore, hticket, -, rfl⟩ := (h.running c.store cache hcache c.ticket k).mp hk
    obtain rfl := h.unique i j c d hc hd hstore.symm hticket.symm
    rw [hc] at hd
    rw [Option.some.inj hd]
  have listed : (c.ticket, key c) ∈ cache.running :=
    (h.running c.store cache hcache _ _).mpr ⟨i, c, hc, rfl, rfl, isOpen, rfl⟩
  have found : cache.running.find? (·.1 == c.ticket) = some (c.ticket, key c) := by
    obtain ⟨x, hx⟩ : ∃ x, cache.running.find? (·.1 == c.ticket) = some x := by
      rw [← Option.isSome_iff_exists, List.find?_isSome]
      exact ⟨_, listed, by simp⟩
    have ht := List.find?_some hx
    rw [beq_iff_eq] at ht
    rw [hx, ← mine x.2 (ht ▸ List.mem_of_find?_eq_some hx), ← ht]
  exact ⟨cache, hcache, by simp [List.getD, hcache], Cache.settle_settledAs found⟩

section Settle

variable (h : Books key caches cs) {i : Nat} {c : Computation} (hc : cs[i]? = some c)
  {cache after : Cache} (hcache : caches[c.store]? = some cache) {result answer : Except Failure Fragment}
  (spec : cache.SettledAs c.ticket (key c) result answer after)

include h hc hcache spec

/-- What the caches run once a computation has ended are the others. -/
theorem running_settle {s : Nat} {new : Cache} (hs : (caches.set c.store after)[s]? = some new) (t : Nat)
    (k : CacheKey) :
    (t, k) ∈ new.running ↔ ∃ (j : Nat) (d : Computation),
      (cs.set i { c with stage := .ended answer })[j]? = some d ∧ d.store = s ∧ d.ticket = t ∧ d.Open ∧
        key d = k := by
  -- The ticket is dropped from the one cache, and no other open computation of this cache has it.
  have notOpen : ¬({ c with stage := .ended answer } : Computation).Open := fun isOpen => isOpen answer rfl
  rcases getElem?_set_cases hs with ⟨rfl, rfl⟩ | ⟨other, hs⟩
  · rw [spec.running, List.mem_filter, h.running c.store cache hcache t k]
    simp only [bne_iff_ne, ne_eq]
    constructor
    · rintro ⟨⟨j, d, hd, hstore, hticket, hopen, hk⟩, hne⟩
      have hij : j ≠ i := by
        rintro rfl
        obtain rfl := Option.some.inj (hc.symm.trans hd)
        exact hne hticket.symm
      exact ⟨j, d, getElem?_set_of_ne hij hd, hstore, hticket, hopen, hk⟩
    · rintro ⟨j, d, hd, hstore, hticket, hopen, hk⟩
      rcases getElem?_set_cases hd with ⟨rfl, rfl⟩ | ⟨hij, hd⟩
      · exact absurd hopen notOpen
      · refine ⟨⟨j, d, hd, hstore, hticket, hopen, hk⟩, fun ht => hij ?_⟩
        exact h.unique j i d c hd hc hstore (hticket.trans ht)
  · rw [h.running s new hs t k]
    constructor
    · rintro ⟨j, d, hd, hstore, hrest⟩
      have hij : j ≠ i := by
        rintro rfl
        obtain rfl := Option.some.inj (hc.symm.trans hd)
        exact other hstore.symm
      exact ⟨j, d, getElem?_set_of_ne hij hd, hstore, hrest⟩
    · rintro ⟨j, d, hd, hstore, hrest⟩
      rcases getElem?_set_cases hd with ⟨rfl, rfl⟩ | ⟨-, hd⟩
      · exact absurd hstore.symm other
      · exact ⟨j, d, hd, hstore, hrest⟩

/-- What is stored once a computation has ended is what was stored, or what it has ended with. -/
theorem entries_settle (isOpen : c.Open) (same : ∀ s, key { c with stage := s } = key c) {s : Nat} {new : Cache}
    (hs : (caches.set c.store after)[s]? = some new) {k : CacheKey} {f : Fragment} (hf : (k, f) ∈ new.entries) :
    ∃ (j : Nat) (d : Computation), (cs.set i { c with stage := .ended answer })[j]? = some d ∧ d.store = s ∧
      d.stage = .ended (.ok f) ∧ key d = k := by
  have kept : ∀ cache' : Cache, caches[s]? = some cache' → (k, f) ∈ cache'.entries →
      ∃ (j : Nat) (d : Computation), (cs.set i { c with stage := .ended answer })[j]? = some d ∧
        d.store = s ∧ d.stage = .ended (.ok f) ∧ key d = k := by
    intro cache' hc' hf'
    obtain ⟨j, d, hd, hstore, hstage, hk⟩ := h.entries s cache' hc' k f hf'
    exact ⟨j, d, getElem?_set_of_ne (isOpen.ne_of_ended hc hd hstage) hd, hstore, hstage, hk⟩
  rcases getElem?_set_cases hs with ⟨rfl, rfl⟩ | ⟨-, hs⟩
  · rcases spec.entries _ hf with hf | ⟨g, hg, hanswer⟩
    · exact kept cache hcache hf
    · obtain ⟨rfl, rfl⟩ := Prod.mk.inj hg
      exact ⟨i, _, List.getElem?_set_self (List.getElem?_eq_some_iff.mp hc).1, rfl, by rw [hanswer], same _⟩
  · exact kept new hs hf

end Settle

/-- A computation ends. -/
theorem settle (h : Books key caches cs) {i : Nat} {c : Computation} (hc : cs[i]? = some c)
    (isOpen : c.Open) (result : Except Failure Fragment)
    (same : ∀ s, key { c with stage := s } = key c) :
    Books key
      (caches.set c.store ((caches.getD c.store default).settle c.ticket result).2)
      (cs.set i { c with stage := .ended ((caches.getD c.store default).settle c.ticket result).1 }) := by
  obtain ⟨cache, hcache, hget, spec⟩ := h.settledAs hc isOpen result
  rw [hget]
  have follows : Follows cs (cs.set i { c with stage := .ended (cache.settle c.ticket result).1 }) :=
    .set hc (isOpen.stage _)
  exact {
    issued := fun j d hd => h.issued_of follows (exists_issued_set hcache (Nat.le_of_eq spec.issued.symm)) hd
    unique := fun j k d d' hd hd' => h.unique_of follows hd hd'
    running := fun s new hs t k => h.running_settle hc hcache spec hs t k
    entries := fun s new hs k f hf => h.entries_settle hc hcache spec isOpen same hs hf }

/-- A further cache is opened. -/
theorem addCache (h : Books key caches cs) {cache : Cache} (entries : cache.entries = [])
    (running : cache.running = []) : Books key (caches ++ [cache]) cs := by
  refine ⟨fun i c hc => ?_, h.unique, fun s old hs t k => ?_, fun s old hs k f hf => ?_⟩
  · obtain ⟨old, hs, hlt⟩ := h.issued i c hc
    exact ⟨old, getElem?_concat_of_some hs, hlt⟩
  · rcases getElem?_concat_cases hs with hs | ⟨rfl, rfl⟩
    · exact h.running s old hs t k
    · rw [running]
      simp only [List.not_mem_nil, false_iff, not_exists, not_and]
      intro i c hc hstore
      obtain ⟨old, hs', -⟩ := h.issued i c hc
      have := (List.getElem?_eq_some_iff.mp hs').1
      omega
  · rcases getElem?_concat_cases hs with hs | ⟨rfl, rfl⟩
    · exact h.entries s old hs k f hf
    · rw [entries] at hf
      cases hf

end Books

end VectorGraph
