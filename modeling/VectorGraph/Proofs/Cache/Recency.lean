import Mathlib.Data.List.Dedup
import Mathlib.Data.List.DropRight
import VectorGraph.Proofs.Cache.Tidy

/-!
The entries of a cache are those used last.

A cache is filled and read from the empty one on (`Cache.accessAll`). A key is used when it is put, and when it is
looked up and found (`Cache.uses`); the keys of the entries, in order, are then the keys that were used last, as many
as the capacity allows, in the order of their last use. So an entry is dropped exactly when as many other keys have
been used since its own last use as the capacity is (`entries_used_last`). What is found under a key is what was put
last under it. Removal in between takes away the entries of its node and leaves the others as they were.
-/
namespace VectorGraph.Cache

variable {c : Cache} {key : CacheKey} {f : Fragment} {n : Nat}

/-! ## Accesses -/

/-- What is done with a cache. -/
inductive Access where
  | put (key : CacheKey) (f : Fragment)
  | get (key : CacheKey)
  | invalidateNode (node : Label)

/-- The cache after an access. -/
def access (c : Cache) : Access → Cache
  | .put key f => (c.put key f).2
  | .get key => (c.get key).2
  | .invalidateNode node => (c.invalidateNode node).2

/-- The cache after several accesses, in order. -/
def accessAll (c : Cache) (accesses : List Access) : Cache := accesses.foldl access c

/-- The key that an access uses: the one that is put, or that is looked up and found. -/
def usedBy? (c : Cache) : Access → Option CacheKey
  | .put key _ => some key
  | .get key => if (c.get key).1.isSome then some key else none
  | .invalidateNode _ => none

/-- The keys in the order in which they are used, each as often as it is. -/
def uses (c : Cache) : List Access → List CacheKey
  | [] => []
  | a :: later => (c.usedBy? a).toList ++ (c.access a).uses later

/-- What an access puts under a key. -/
def Access.puts? (key : CacheKey) : Access → Option Fragment
  | .put k f => if k = key then some f else none
  | _ => none

/-- What was put last under a key. -/
def lastPut? (accesses : List Access) (key : CacheKey) : Option Fragment :=
  accesses.reverse.findSome? (Access.puts? key)

/-- The keys of the entries, the one used longest ago first. -/
def keys (c : Cache) : List CacheKey := c.entries.map (·.1)

@[simp] theorem accessAll_concat (c : Cache) (accesses : List Access) (a : Access) :
    c.accessAll (accesses ++ [a]) = (c.accessAll accesses).access a := List.foldl_concat ..

theorem uses_concat (c : Cache) (accesses : List Access) (a : Access) :
    c.uses (accesses ++ [a]) = c.uses accesses ++ ((c.accessAll accesses).usedBy? a).toList := by
  induction accesses generalizing c with
  | nil => exact List.append_nil _
  | cons first later ih =>
    rw [List.cons_append, uses, ih, uses, List.append_assoc]
    rfl

theorem lastPut?_concat (accesses : List Access) (a : Access) (key : CacheKey) :
    lastPut? (accesses ++ [a]) key = (a.puts? key).or (lastPut? accesses key) := by
  rw [lastPut?, lastPut?, List.reverse_append, List.reverse_singleton, List.singleton_append, List.findSome?_cons]
  cases a.puts? key <;> rfl

theorem mem_keys : key ∈ c.keys ↔ (c.find? key).isSome := by
  simp [keys, find?]

theorem capacity_access (c : Cache) (a : Access) : (c.access a).capacity = c.capacity := by
  cases a <;> rfl

theorem capacity_accessAll (c : Cache) (accesses : List Access) : (c.accessAll accesses).capacity = c.capacity := by
  induction accesses generalizing c with
  | nil => rfl
  | cons a later ih => exact (ih (c.access a)).trans (capacity_access c a)

/-! ## The order of last use -/

/-- A list with an element at its end, and nowhere else. -/
def movedLast (l : List CacheKey) (key : CacheKey) : List CacheKey := l.filter (· != key) ++ [key]

/-- Of the keys used so far, without repetition and in the order of their last use, the one that is used moves to the
end. -/
theorem dedup_concat (l : List CacheKey) (key : CacheKey) : (l ++ [key]).dedup = movedLast l.dedup key := by
  unfold movedLast
  induction l with
  | nil => rfl
  | cons a l ih =>
    rw [List.cons_append]
    by_cases old : a ∈ l
    · rw [List.dedup_cons_of_mem old, List.dedup_cons_of_mem (List.mem_append_left _ old), ih]
    · by_cases same : a = key
      · subst same
        have mem : a ∈ l ++ [a] := List.mem_append_right _ (List.mem_singleton_self a)
        rw [List.dedup_cons_of_mem mem, List.dedup_cons_of_notMem old, ih]
        simp
      · rw [List.dedup_cons_of_notMem old, List.dedup_cons_of_notMem (by simp [old, same]), ih]
        simp [same]

theorem movedLast_sublist {l l' : List CacheKey} (h : l.Sublist l') (key : CacheKey) :
    (movedLast l key).Sublist (movedLast l' key) :=
  (h.filter _).append (List.Sublist.refl _)

theorem movedLast_suffix {l l' : List CacheKey} (h : l <:+ l') (key : CacheKey) :
    movedLast l key <:+ movedLast l' key := by
  obtain ⟨before, rfl⟩ := h
  exact ⟨before.filter (· != key), by simp [movedLast]⟩

/-- A key is found once at most. -/
theorem length_le_filter {l : List CacheKey} (h : l.Nodup) (key : CacheKey) :
    l.length ≤ (l.filter (· != key)).length + 1 := by
  have shorter := List.length_erase (a := key) (l := l)
  rw [h.erase_eq_filter] at shorter
  split at shorter <;> omega

theorem length_movedLast_of_mem {l : List CacheKey} (h : l.Nodup) (mem : key ∈ l) :
    (movedLast l key).length = l.length := by
  rw [movedLast, ← h.erase_eq_filter, List.length_append, List.length_singleton, List.length_erase_add_one mem]

/-! ## The entries after one access -/

theorem keys_filter (p : CacheKey → Bool) (entries : List (CacheKey × Fragment)) :
    (entries.filter fun x => p x.1).map (·.1) = (entries.map (·.1)).filter p :=
  (List.filter_map ..).symm

theorem keys_put (c : Cache) (key : CacheKey) (f : Fragment) :
    (c.access (.put key f)).keys = (movedLast c.keys key).rtake c.capacity.toNat := by
  simp [access, put, store, keepRecent, keys, movedLast, List.rtake, List.map_drop, ← keys_filter]

theorem keys_get (distinct : c.keys.Nodup) (mem : key ∈ c.keys) :
    (c.access (.get key)).keys = movedLast c.keys key := by
  have parts : (c.access (.get key)).keys = c.keys.filter (· != key) ++ c.keys.filter (· == key) := by
    rw [keys, keys, ← keys_filter (· != key), ← keys_filter (· == key)]
    exact List.map_append
  rw [parts, List.filter_beq, List.count_eq_one_of_mem distinct mem, List.replicate_one, movedLast]

/-- What is looked up and not found changes nothing. -/
theorem access_get_of_missing (missing : key ∉ c.keys) : c.access (.get key) = c := by
  have other : ∀ x ∈ c.entries, x.1 ≠ key := fun x hx same => missing (List.mem_map.mpr ⟨x, hx, same⟩)
  have all : c.entries.filter (·.1 != key) = c.entries :=
    List.filter_eq_self.mpr fun x hx => bne_iff_ne.mpr (other x hx)
  have none_ : c.entries.filter (·.1 == key) = [] :=
    List.filter_eq_nil_iff.mpr fun x hx => by simpa using other x hx
  simp only [access, get, touch, all, none_, List.append_nil]

theorem keys_invalidateNode (c : Cache) (node : Label) :
    (c.access (.invalidateNode node)).keys = c.keys.filter (·.node != node) :=
  keys_filter (fun key : CacheKey => key.node != node) c.entries

/-- Removal takes away what is stored for the node, and nothing else. -/
theorem find?_invalidateNode (c : Cache) (node : Label) (key : CacheKey) :
    (c.invalidateNode node).2.find? key = if key.node = node then none else c.find? key := by
  split
  · next same =>
    refine find?_eq_none_iff.mpr fun x hx stored => ?_
    have other := bne_iff_ne.mp (List.mem_filter.mp hx).2
    exact other (by rw [stored, same])
  · next other =>
    rw [find?, find?, invalidateNode, List.find?_filter]
    congr 2
    funext x
    by_cases stored : x.1 = key
    · simp [stored, other]
    · simp [stored]

/-! ## The entries after any accesses -/

theorem rtake_suffix (l : List CacheKey) (n : Nat) : l.rtake n <:+ l := List.drop_suffix ..

theorem length_rtake (l : List CacheKey) (n : Nat) : (l.rtake n).length = min n l.length := by
  rw [List.rtake, List.length_drop]
  omega

/-- Of the keys used last, as many as fit in, the same remain however many were used before them. -/
theorem rtake_movedLast {l : List CacheKey} (h : l.Nodup) (n : Nat) (key : CacheKey) :
    (movedLast (l.rtake n) key).rtake n = (movedLast l key).rtake n := by
  have suffix := rtake_suffix l n
  have kept := length_le_filter (h.sublist suffix.sublist) key
  have fewer := (suffix.sublist.filter (· != key)).length_le
  have short : l.length ≤ n → l.rtake n = l := fun fits => by
    rw [List.rtake, Nat.sub_eq_zero_of_le fits, List.drop_zero]
  have left : (movedLast (l.rtake n) key).rtake n <:+ movedLast l key :=
    (rtake_suffix ..).trans (movedLast_suffix suffix key)
  have right := rtake_suffix (movedLast l key) n
  have same : ((movedLast (l.rtake n) key).rtake n).length = ((movedLast l key).rtake n).length := by
    rw [length_rtake] at kept
    simp only [length_rtake, movedLast, List.length_append, List.length_singleton]
    by_cases fits : l.length ≤ n
    · rw [short fits]
    · omega
  exact (List.suffix_of_suffix_length_le left right (Nat.le_of_eq same)).eq_of_length same

/-- What can be said of the entries when `used` were the keys in use, in order, and `last` is what was put last under
each: they stand in the order of their last use, have been put last under their keys, and are no more than fit in. -/
structure Tracks (c : Cache) (used : List CacheKey) (last : CacheKey → Option Fragment) : Prop where
  order : c.keys.Sublist used.dedup
  value : ∀ x ∈ c.entries, last x.1 = some x.2
  fits : c.Fits

namespace Tracks

variable {used : List CacheKey} {last : CacheKey → Option Fragment}

theorem distinct (h : c.Tracks used last) : c.keys.Nodup := (List.nodup_dedup used).sublist h.order

/-- Every access keeps the order, the values and the bound. -/
theorem access (h : c.Tracks used last) (a : Access) :
    (c.access a).Tracks (used ++ (c.usedBy? a).toList) (fun key => (a.puts? key).or (last key)) := by
  cases a with
  | put key f =>
    refine ⟨?_, fun x hx => ?_, ?_⟩
    · rw [keys_put, usedBy?, Option.toList_some, dedup_concat]
      exact (rtake_suffix ..).sublist.trans (movedLast_sublist h.order key)
    · have stored := List.mem_of_mem_drop hx
      rw [List.mem_append, List.mem_filter, List.mem_singleton] at stored
      rcases stored with ⟨old, other⟩ | rfl
      · rw [Access.puts?, if_neg (Ne.symm (bne_iff_ne.mp other)), Option.none_or, h.value x old]
      · rw [Access.puts?, if_pos rfl, Option.some_or]
    · simp only [Fits, Cache.access, put, store, keepRecent, List.length_drop]
      omega
  | get key =>
    -- A hit moves the key to the end, and a miss changes nothing.
    by_cases found : key ∈ c.keys
    · have used_ : c.usedBy? (.get key) = some key := if_pos (mem_keys.mp found)
      refine ⟨?_, fun x hx => h.value x (mem_touch.mp hx), ?_⟩
      · rw [keys_get h.distinct found, used_, Option.toList_some, dedup_concat]
        exact movedLast_sublist h.order key
      · exact h.fits.shrink rfl (Nat.le_of_eq (touch_perm c key).length_eq)
    · have unused : c.usedBy? (.get key) = none := if_neg (mt mem_keys.mpr found)
      rw [access_get_of_missing found, unused, Option.toList_none, List.append_nil]
      exact h
  | invalidateNode node =>
    refine ⟨?_, fun x hx => h.value x (List.mem_filter.mp hx).1, ?_⟩
    · rw [keys_invalidateNode, usedBy?, Option.toList_none, List.append_nil]
      exact List.filter_sublist.trans h.order
    · exact h.fits.shrink rfl (List.length_filter_le ..)

/-- As long as nothing is removed, the entries are the last ones of those used, as many as fit in. -/
theorem keys_access (h : c.Tracks used last) (all : c.keys = used.dedup.rtake c.capacity.toNat) {a : Access}
    (kept : ∀ node, a ≠ .invalidateNode node) :
    (c.access a).keys = (used ++ (c.usedBy? a).toList).dedup.rtake c.capacity.toNat := by
  have moved := rtake_movedLast (List.nodup_dedup used) c.capacity.toNat
  cases a with
  | put key f => rw [keys_put, usedBy?, Option.toList_some, dedup_concat, ← moved, all]
  | get key =>
    by_cases found : key ∈ c.keys
    · have used_ : c.usedBy? (.get key) = some key := if_pos (mem_keys.mp found)
      have whole : (movedLast c.keys key).rtake c.capacity.toNat = movedLast c.keys key := by
        refine (rtake_suffix ..).eq_of_length ?_
        rw [length_rtake, length_movedLast_of_mem h.distinct found, all, length_rtake]
        omega
      rw [keys_get h.distinct found, used_, Option.toList_some, dedup_concat, ← moved, ← all, whole]
    · have unused : c.usedBy? (.get key) = none := if_neg (mt mem_keys.mpr found)
      rw [access_get_of_missing found, unused, Option.toList_none, List.append_nil, all]
  | invalidateNode node => exact absurd rfl (kept node)

end Tracks

/-- From a cache without entries on, the entries are tracked through any accesses. -/
theorem tracks_accessAll (blank : c.entries = []) (accesses : List Access) :
    (c.accessAll accesses).Tracks (c.uses accesses) (lastPut? accesses) := by
  induction accesses using List.reverseRecOn with
  | nil => exact ⟨by simp [accessAll, keys, blank], by simp [accessAll, blank], by simp [Fits, accessAll, blank]⟩
  | append_singleton accesses a ih =>
    rw [accessAll_concat, uses_concat]
    have last : lastPut? (accesses ++ [a]) = fun key => (a.puts? key).or (lastPut? accesses key) :=
      funext fun key => lastPut?_concat accesses a key
    rw [last]
    exact ih.access a

/-- As long as nothing is removed, the entries are those used last. -/
theorem keys_accessAll (blank : c.entries = []) (accesses : List Access)
    (kept : ∀ node, .invalidateNode node ∉ accesses) :
    (c.accessAll accesses).keys = (c.uses accesses).dedup.rtake c.capacity.toNat := by
  induction accesses using List.reverseRecOn with
  | nil => simp [accessAll, keys, uses, blank]
  | append_singleton accesses a ih =>
    have before : ∀ node, .invalidateNode node ∉ accesses := fun node mem => kept node (List.mem_append_left _ mem)
    have now : ∀ node, a ≠ .invalidateNode node := by
      rintro node rfl
      exact kept node (List.mem_append_right _ (List.mem_singleton_self _))
    have step := (tracks_accessAll blank accesses).keys_access (by rw [capacity_accessAll, ih before]) now
    rwa [accessAll_concat, uses_concat, ← capacity_accessAll c accesses]

/-! ## Who is still there -/

/-- The keys used since the last use of one. -/
def usedSince (used : List CacheKey) (key : CacheKey) : List CacheKey := used.rtakeWhile (· != key)

theorem key_not_mem_usedSince (used : List CacheKey) (key : CacheKey) : key ∉ usedSince used key := fun mem => by
  simpa using List.mem_rtakeWhile_imp mem

/-- In the order of last use, a key is followed by those used since its last use. -/
theorem exists_dedup_eq {used : List CacheKey} (mem : key ∈ used) :
    ∃ earlier, used.dedup = earlier ++ key :: (usedSince used key).dedup := by
  have split : used.rdropWhile (· != key) ++ usedSince used key = used := List.rdropWhile_append_rtakeWhile
  have some_ : used.rdropWhile (· != key) ≠ [] := by
    intro none_
    have away := List.rdropWhile_eq_nil_iff.mp none_ key mem
    simp at away
  have last : (used.rdropWhile (· != key)).getLast some_ = key := by
    simpa using List.rdropWhile_last_not (· != key) used some_
  have front := List.dropLast_append_getLast some_
  rw [last] at front
  have whole : used = (used.rdropWhile (· != key)).dropLast ++ key :: usedSince used key := by
    rw [List.append_cons, front, split]
  have suffix := List.suffix_union_right (used.rdropWhile (· != key)).dropLast (key :: usedSince used key).dedup
  rw [← List.dedup_append, ← whole, List.dedup_cons_of_notMem (key_not_mem_usedSince used key)] at suffix
  obtain ⟨earlier, same⟩ := suffix
  exact ⟨earlier, same.symm⟩

/-- A key is among the last ones if and only if fewer others have been used since. -/
theorem mem_rtake_iff {used : List CacheKey} :
    key ∈ used.dedup.rtake n ↔ key ∈ used ∧ (usedSince used key).dedup.length < n := by
  by_cases mem : key ∈ used
  · obtain ⟨earlier, whole⟩ := exists_dedup_eq mem
    have absent : key ∉ (usedSince used key).dedup := mt List.mem_dedup.mp (key_not_mem_usedSince used key)
    rw [and_iff_right mem, whole, List.rtake, List.length_append, List.length_cons]
    by_cases few : (usedSince used key).dedup.length < n
    · rw [List.drop_append_of_le_length (by omega)]
      exact iff_of_true (List.mem_append_right _ List.mem_cons_self) few
    · obtain ⟨more, count⟩ : ∃ more, earlier.length + ((usedSince used key).dedup.length + 1) - n =
          earlier.length + (more + 1) := ⟨(usedSince used key).dedup.length - n, by omega⟩
      rw [count, List.drop_length_add_append, List.drop_succ_cons]
      exact iff_of_false (fun later => absent (List.mem_of_mem_drop later)) few
  · exact iff_of_false (fun last => mem (List.mem_dedup.mp ((rtake_suffix ..).mem last))) fun h => mem h.1

/-- The keys in use are those that have been put. -/
theorem mem_uses_iff (blank : c.entries = []) {accesses : List Access} :
    key ∈ c.uses accesses ↔ ∃ f, .put key f ∈ accesses := by
  induction accesses using List.reverseRecOn with
  | nil => simp [uses]
  | append_singleton accesses a ih =>
    have stored : key ∈ (c.accessAll accesses).keys → ∃ f, .put key f ∈ accesses := fun there =>
      ih.mp (List.mem_dedup.mp ((tracks_accessAll blank accesses).order.subset there))
    simp only [uses_concat, List.mem_append, ih, List.mem_singleton, Option.mem_toList, exists_or]
    refine or_congr_right' fun unput => ?_
    cases a with
    | put k f => simp [usedBy?, eq_comm]
    | get k =>
      simp only [usedBy?, reduceCtorEq, exists_false, iff_false]
      intro used
      split at used
      · next found =>
        cases used
        exact unput (stored (mem_keys.mpr found))
      · cases used
    | invalidateNode node => simp [usedBy?]

/-- A cache that is filled and read from the empty one on drops the key used longest ago. As long as nothing is removed,
its keys are those used last, in the order of their last use, as many as fit in: a key is found if and only if it has
been put and fewer others than fit in have been put, or looked up and found, since its own last use. What is found is
what was put last under the key, and there are never more entries than fit in. Removal takes away the entries of its
node, and leaves the others with their values and in their order. -/
theorem entries_used_last (capacity : Nat) (accesses : List Access) :
    let c : Cache := { capacity }
    let used := c.uses accesses
    let now := c.accessAll accesses
    ((∀ node, .invalidateNode node ∉ accesses) →
      now.entries.map (·.1) = used.dedup.rtake capacity ∧
      ∀ key, (now.get key).1.isSome ↔
        (∃ f, .put key f ∈ accesses) ∧ (usedSince used key).dedup.length < capacity) ∧
    (now.entries.map (·.1)).Sublist used.dedup ∧
    (∀ key f, (now.get key).1 = some f → lastPut? accesses key = some f) ∧
    now.entries.length ≤ capacity ∧
    ∀ node, (now.invalidateNode node).2.entries = now.entries.filter (·.1.node != node) ∧
      (now.invalidateNode node).1 + (now.invalidateNode node).2.entries.length = now.entries.length ∧
      ∀ key, ((now.invalidateNode node).2.get key).1 = if key.node = node then none else (now.get key).1 := by
  intro c used now
  have tracked : now.Tracks used (lastPut? accesses) := tracks_accessAll rfl accesses
  have room : now.capacity = capacity := capacity_accessAll c accesses
  refine ⟨fun kept => ?_, tracked.order, fun key f found => tracked.value _ (mem_of_find? found), ?_, fun node => ?_⟩
  · have last : now.keys = used.dedup.rtake capacity := keys_accessAll rfl accesses kept
    refine ⟨last, fun key => ?_⟩
    exact mem_keys.symm.trans (by rw [last, mem_rtake_iff, mem_uses_iff rfl])
  · have fits := tracked.fits
    rwa [Fits, room, Int.toNat_natCast] at fits
  · exact ⟨rfl, invalidateNode_parts now node, fun key => find?_invalidateNode now node key⟩

/-- A key that differs from others in the node alone. -/
def keyOf (node : String) : CacheKey := ⟨.text node, 8, "", ""⟩

/-- Three keys in a cache for two: when the third is put, the second has been used longest ago. -/
theorem entries_used_last_third :
    let accesses : List Access :=
      [.put (keyOf "p") { markup := "1" }, .put (keyOf "q") {}, .get (keyOf "p"), .put (keyOf "r") {}]
    let now := ({ capacity := 2 } : Cache).accessAll accesses
    (∀ node, .invalidateNode node ∉ accesses) ∧ now.entries.map (·.1) = [keyOf "p", keyOf "r"] ∧
      (now.get (keyOf "p")).1.isSome ∧ ¬ (now.get (keyOf "q")).1.isSome := by
  intro accesses now
  have kept : ∀ node, .invalidateNode node ∉ accesses := fun node mem => by simp [accesses] at mem
  obtain ⟨last, found⟩ := (entries_used_last 2 accesses).1 kept
  refine ⟨kept, last.trans (by decide), (found _).mpr ⟨⟨{ markup := "1" }, List.mem_cons_self⟩, by decide⟩, ?_⟩
  exact fun still => absurd ((found _).mp still).2 (by decide)

end VectorGraph.Cache
