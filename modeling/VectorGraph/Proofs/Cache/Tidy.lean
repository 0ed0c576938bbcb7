import Mathlib.Data.List.Nodup
import Mathlib.Data.List.Perm.Subperm
import VectorGraph.Proofs.Cache.Operations

/-!
Caches in good order.

The computations under way do not get in each other's way: each has a key and a ticket of its own, and nothing is
stored under its key (`Cache.Exclusive`). Besides, nothing is stored twice under one key (`Cache.Tidy`). Every
operation keeps a cache so, and as long as there is room in it the end of a computation adds its entry and drops none.
No more is stored than the capacity allows (`Cache.Fits`).
-/
namespace VectorGraph.Cache

variable {c c' : Cache} {key : CacheKey} {ticket : Nat} {result : Except Failure Fragment} {f : Fragment}

/-- The computations under way do not get in each other's way. -/
structure Exclusive (c : Cache) : Prop where
  issued : ∀ x ∈ c.running, x.1 < c.issued
  tickets : (c.running.map (·.1)).Nodup
  keys : (c.running.map (·.2)).Nodup
  /-- Nothing is stored under a key that is being computed. -/
  absent : ∀ x ∈ c.running, c.find? x.2 = none

namespace Exclusive

theorem of_idle (idle : c.running = []) : c.Exclusive := by
  constructor <;> simp [idle]

/-- Entries may go, and their order does not matter. -/
theorem shrink (h : c.Exclusive) (running : c'.running = c.running) (issued : c'.issued = c.issued)
    (entries : ∀ x ∈ c'.entries, x ∈ c.entries) : c'.Exclusive where
  issued := by rw [running, issued]; exact h.issued
  tickets := running ▸ h.tickets
  keys := running ▸ h.keys
  absent x hx := by
    have none := find?_eq_none_iff.mp (h.absent x (running ▸ hx))
    exact find?_eq_none_iff.mpr fun y hy => none y (entries y hy)

theorem find_running (h : c.Exclusive) (there : (ticket, key) ∈ c.running) :
    c.running.find? (·.1 == ticket) = some (ticket, key) := by
  obtain ⟨x, found⟩ : ∃ x, c.running.find? (·.1 == ticket) = some x := by
    rw [← Option.isSome_iff_exists, List.find?_isSome]
    exact ⟨_, there, beq_self_eq_true _⟩
  have same : x.1 = ticket := by simpa using List.find?_some found
  rw [found, List.inj_on_of_nodup_map h.tickets (List.mem_of_find?_eq_some found) there same]

theorem request (h : c.Exclusive) (key : CacheKey) : (c.request key).2.Exclusive := by
  cases stored : c.find? key with
  | some f =>
    rw [request_found stored]
    exact h.shrink rfl rfl fun _ hx => mem_touch.mp hx
  | none =>
    cases known : c.ticketOf? key with
    | some ticket =>
      rw [request_joined stored known]
      exact h.shrink rfl rfl fun _ hx => hx
    | none =>
      rw [request_started stored known]
      -- The new computation has the next ticket, and a key that no other has.
      have other := ticketOf?_eq_none_iff.mp known
      refine ⟨fun x hx => ?_, ?_, ?_, fun x hx => ?_⟩
      · rcases List.mem_append.mp hx with hx | hx
        · exact Nat.lt_succ_of_lt (h.issued x hx)
        · obtain rfl := List.mem_singleton.mp hx
          exact Nat.lt_succ_self _
      · rw [List.map_append, List.map_singleton, List.nodup_append]
        refine ⟨h.tickets, List.nodup_singleton _, ?_⟩
        intro t ht u hu
        obtain ⟨x, hx, rfl⟩ := List.mem_map.mp ht
        obtain rfl := List.mem_singleton.mp hu
        exact Nat.ne_of_lt (h.issued x hx)
      · rw [List.map_append, List.map_singleton, List.nodup_append]
        refine ⟨h.keys, List.nodup_singleton _, ?_⟩
        intro k hk u hu
        obtain ⟨x, hx, rfl⟩ := List.mem_map.mp hk
        obtain rfl := List.mem_singleton.mp hu
        exact other x hx
      · rcases List.mem_append.mp hx with hx | hx
        · exact h.absent x hx
        · obtain rfl := List.mem_singleton.mp hx
          exact stored

theorem settle (h : c.Exclusive) (ticket : Nat) (result : Except Failure Fragment) :
    (c.settle ticket result).2.Exclusive := by
  rcases settle_cases c ticket result with ⟨-, same⟩ | ⟨key, there, spec⟩
  · rw [same]
    exact h
  · -- what goes on is not the computation that has ended, so its key is another one
    have goes : ∀ x ∈ (c.settle ticket result).2.running, x ∈ c.running ∧ x.1 ≠ ticket := by
      intro x hx
      rw [spec.running, List.mem_filter, bne_iff_ne] at hx
      exact hx
    refine ⟨fun x hx => ?_, ?_, ?_, fun x hx => ?_⟩
    · rw [spec.issued]
      exact h.issued x (goes x hx).1
    · rw [spec.running]
      exact h.tickets.sublist (List.filter_sublist.map _)
    · rw [spec.running]
      exact h.keys.sublist (List.filter_sublist.map _)
    · obtain ⟨hx, other⟩ := goes x hx
      refine find?_eq_none_iff.mpr fun y hy same => ?_
      rcases spec.entries y hy with hy | ⟨f, rfl, -⟩
      · exact find?_eq_none_iff.mp (h.absent x hx) y hy same
      · apply other
        rw [List.inj_on_of_nodup_map h.keys hx there same.symm]

end Exclusive

/-! ## No key twice -/

/-- Nothing is stored twice, and the computations under way do not get in each other's way. -/
structure Tidy (c : Cache) : Prop extends Exclusive c where
  entries : (c.entries.map (·.1)).Nodup

theorem nodup_store (h : (c.entries.map (·.1)).Nodup) (key : CacheKey) (f : Fragment) :
    ((c.store key f).entries.map (·.1)).Nodup := by
  refine List.Nodup.sublist ((List.drop_sublist ..).map _) ?_
  rw [List.map_append, List.map_singleton, List.nodup_append]
  refine ⟨h.sublist (List.filter_sublist.map _), List.nodup_singleton _, ?_⟩
  intro k hk k' hk'
  obtain ⟨x, hx, rfl⟩ := List.mem_map.mp hk
  obtain rfl := List.mem_singleton.mp hk'
  exact bne_iff_ne.mp (List.mem_filter.mp hx).2

namespace Tidy

theorem of_blank (entries : c.entries = []) (idle : c.running = []) : c.Tidy :=
  ⟨.of_idle idle, by rw [entries]; exact .nil⟩

/-- Entries may go. -/
theorem shrink (h : c.Tidy) (running : c'.running = c.running) (issued : c'.issued = c.issued)
    (entries : c'.entries.Sublist c.entries) : c'.Tidy :=
  ⟨h.toExclusive.shrink running issued fun _ hx => entries.subset hx, h.entries.sublist (entries.map _)⟩

theorem request (h : c.Tidy) (key : CacheKey) : (c.request key).2.Tidy :=
  ⟨h.toExclusive.request key, ((request_perm c key).map _).nodup_iff.mpr h.entries⟩

theorem settle (h : c.Tidy) (ticket : Nat) (result : Except Failure Fragment) :
    (c.settle ticket result).2.Tidy := by
  refine ⟨h.toExclusive.settle ticket result, ?_⟩
  unfold Cache.settle
  cases c.running.find? (·.1 == ticket) with
  | none => exact h.entries
  | some x =>
    cases result with
    | error failure => exact h.entries
    | ok f => exact nodup_store h.entries x.2 f

end Tidy

/-! ## Room for one more -/

/-- The fragment of a computation is stored behind all other entries, and the first ones are dropped if there are too
many. -/
theorem Exclusive.settle_entries (h : c.Exclusive) (there : (ticket, key) ∈ c.running) (f : Fragment) :
    (c.settle ticket (.ok f)).2.entries =
      (c.entries ++ [(key, f)]).drop (c.entries.length + 1 - c.capacity.toNat) := by
  have absent : c.entries.filter (·.1 != key) = c.entries := by
    refine List.filter_eq_self.mpr fun x hx => bne_iff_ne.mpr ?_
    exact find?_eq_none_iff.mp (h.absent _ there) x hx
  simp only [Cache.settle, h.find_running there, put, Cache.store, keepRecent, absent]
  rw [List.length_append, List.length_singleton]

/-- Where nothing can be stored a computation fails. -/
theorem Exclusive.settle_unable (h : c.Exclusive) (there : (ticket, key) ∈ c.running) (f : Fragment)
    (unable : c.capacity < 0) : (c.settle ticket (.ok f)).1 = .error .missingEntry := by
  have refused : c.accepts = false := by
    simp only [accepts, decide_eq_false_iff_not]
    omega
  simp only [Cache.settle, h.find_running there, put]
  rw [show ({ c with running := c.running.filter (·.1 != ticket) } : Cache).accepts = false from refused]
  rfl

/-- Where there is room, the fragment of a computation is stored behind all other entries, and none is dropped. -/
theorem Exclusive.settle_ok (h : c.Exclusive) (there : (ticket, key) ∈ c.running)
    (room : (c.entries.length : Int) < c.capacity) :
    (c.settle ticket (.ok f)).1 = .ok f ∧ (c.settle ticket (.ok f)).2.entries = c.entries ++ [(key, f)] := by
  refine ⟨settle_fst (by omega), ?_⟩
  rw [h.settle_entries there, show c.entries.length + 1 - c.capacity.toNat = 0 by omega, List.drop_zero]

/-- Where no key is lost when a fragment is to be stored there was room for it, or nothing can be stored at all. -/
theorem Tidy.room_of_settle (h : c.Tidy) (there : (ticket, key) ∈ c.running)
    (old : ∀ x ∈ c.entries, x.1 ∈ (c.settle ticket (.ok f)).2.entries.map (·.1))
    (new : (c.settle ticket (.ok f)).1 = .ok f → key ∈ (c.settle ticket (.ok f)).2.entries.map (·.1)) :
    (c.entries.length : Int) < c.capacity ∨ c.capacity < 0 ∧ c.entries = [] := by
  have left : ((c.settle ticket (.ok f)).2.entries.map (·.1)).length =
      c.entries.length + 1 - (c.entries.length + 1 - c.capacity.toNat) := by
    rw [h.settle_entries there, List.length_map, List.length_drop, List.length_append, List.length_singleton]
  have kept : c.entries.map (·.1) ⊆ (c.settle ticket (.ok f)).2.entries.map (·.1) := by
    intro k hk
    obtain ⟨x, hx, rfl⟩ := List.mem_map.mp hk
    exact old x hx
  by_cases able : 0 ≤ c.capacity
  · left
    have distinct : (key :: c.entries.map (·.1)).Nodup := by
      refine List.nodup_cons.mpr ⟨fun stored => ?_, h.entries⟩
      obtain ⟨x, hx, same⟩ := List.mem_map.mp stored
      exact find?_eq_none_iff.mp (h.absent _ there) x hx same
    have all := (distinct.subperm (List.cons_subset.mpr ⟨new (settle_fst able), kept⟩)).length_le
    rw [left, List.length_cons, List.length_map] at all
    omega
  · right
    have all := (h.entries.subperm kept).length_le
    rw [left, List.length_map] at all
    exact ⟨by omega, List.length_eq_zero_iff.mp (by omega)⟩

/-! ## Bounded length -/

/-- No more is stored than the capacity allows. -/
def Fits (c : Cache) : Prop := c.entries.length ≤ c.capacity.toNat

namespace Fits

/-- Entries may go. -/
theorem shrink (h : c.Fits) (capacity : c'.capacity = c.capacity) (entries : c'.entries.length ≤ c.entries.length) :
    c'.Fits := by
  unfold Fits at h ⊢
  rw [capacity]
  exact Nat.le_trans entries h

theorem request (h : c.Fits) (key : CacheKey) : (c.request key).2.Fits := by
  refine h.shrink ?_ (Nat.le_of_eq (c.request_perm key).length_eq)
  unfold Cache.request
  split
  · rfl
  · split <;> rfl

/-- What is stored is cut to the capacity. -/
theorem settle (h : c.Fits) (ticket : Nat) (result : Except Failure Fragment) : (c.settle ticket result).2.Fits := by
  unfold Cache.settle
  cases c.running.find? (·.1 == ticket) with
  | none => exact h
  | some x =>
    cases result with
    | error failure => exact h
    | ok f =>
      unfold Fits
      simp only [put, Cache.store, keepRecent, List.length_drop]
      omega

end Fits

end VectorGraph.Cache
