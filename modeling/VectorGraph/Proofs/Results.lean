/-!
What a computation that may fail tells of its parts.

A sequence succeeds exactly where both of its parts do (`bind_eq_ok`). Over a list, mapping is a matter of the single
entries, and a fold fails at one of them.
-/
namespace VectorGraph

variable {α β ε : Type}

/-! ## One after the other -/

theorem bind_eq_ok {x : Except ε α} {f : α → Except ε β} {b : β} :
    (x >>= f) = .ok b ↔ ∃ a, x = .ok a ∧ f a = .ok b := by
  cases x with
  | error failure => exact ⟨nofun, nofun⟩
  | ok a => exact ⟨fun h => ⟨a, rfl, h⟩, fun ⟨_, ha, h⟩ => Except.ok.inj ha ▸ h⟩

theorem mapError_eq_ok_iff {ε' : Type} {f : ε → ε'} {x : Except ε α} {a : α} :
    x.mapError f = .ok a ↔ x = .ok a := by
  cases x with
  | error e => exact ⟨nofun, nofun⟩
  | ok b => exact ⟨fun h => congrArg _ (Except.ok.inj h), fun h => congrArg _ (Except.ok.inj h)⟩

/-! ## Over a list -/

/-- What a list is mapped to comes from its entries. -/
theorem exists_of_mem_mapM {f : α → Except ε β} {xs : List α} :
    ∀ {ys : List β}, xs.mapM f = .ok ys → ∀ y ∈ ys, ∃ x ∈ xs, f x = .ok y := by
  induction xs with
  | nil =>
    intro ys h y hy
    obtain rfl := Except.ok.inj h
    cases hy
  | cons x xs ih =>
    intro ys h y hy
    rw [List.mapM_cons] at h
    obtain ⟨z, hz, h⟩ := bind_eq_ok.mp h
    obtain ⟨zs, hzs, h⟩ := bind_eq_ok.mp h
    obtain rfl := Except.ok.inj h
    rcases List.mem_cons.mp hy with rfl | hy
    · exact ⟨x, List.mem_cons_self, hz⟩
    · obtain ⟨w, hw, hy⟩ := ih hzs y hy
      exact ⟨w, List.mem_cons_of_mem x hw, hy⟩

/-- What has a value on every entry of a list has one on the list. -/
theorem mapM_eq_ok {f : α → Except ε β} {g : α → β} (l : List α) (h : ∀ a ∈ l, f a = .ok (g a)) :
    l.mapM f = .ok (l.map g) := by
  induction l with
  | nil => rfl
  | cons a l ih =>
    obtain ⟨here, later⟩ := List.forall_mem_cons.mp h
    rw [List.mapM_cons, here, ih later]
    rfl

/-- What is defined on every entry of a list is defined on the list. -/
theorem exists_mapM_ok {f : α → Except ε β} (l : List α)
    (h : ∀ a ∈ l, ∃ b, f a = .ok b) : ∃ bs, l.mapM f = .ok bs := by
  induction l with
  | nil => exact ⟨[], rfl⟩
  | cons a l ih =>
    obtain ⟨⟨b, hb⟩, later⟩ := List.forall_mem_cons.mp h
    obtain ⟨bs, hbs⟩ := ih later
    exact ⟨b :: bs, by rw [List.mapM_cons, hb, hbs]; rfl⟩

/-- Steps that do the same for every element of a list do the same one after another. -/
theorem foldlM_eq {f f' : β → α → Except ε β} {xs : List α} (each : ∀ x ∈ xs, ∀ b, f' b x = f b x) :
    ∀ b, xs.foldlM f' b = xs.foldlM f b := by
  induction xs with
  | nil => exact fun _ => rfl
  | cons x rest ih =>
    intro b
    obtain ⟨first, later⟩ := List.forall_mem_cons.mp each
    rw [List.foldlM_cons, List.foldlM_cons, first]
    exact bind_congr (ih later)

/-- A fold fails at one of the entries. -/
theorem exists_of_foldlM_error {f : β → α → Except ε β} {fault : ε} (l : List α) :
    ∀ b, l.foldlM f b = .error fault → ∃ a ∈ l, ∃ b', f b' a = .error fault := by
  induction l with
  | nil => exact fun b h => nomatch h
  | cons a l ih =>
    intro b h
    rw [List.foldlM_cons] at h
    cases hf : f b a with
    | error other =>
      rw [hf] at h
      exact ⟨a, List.mem_cons_self, b, hf.trans h⟩
    | ok b' =>
      rw [hf] at h
      obtain ⟨a', ha', found⟩ := ih b' h
      exact ⟨a', List.mem_cons_of_mem _ ha', found⟩

end VectorGraph
