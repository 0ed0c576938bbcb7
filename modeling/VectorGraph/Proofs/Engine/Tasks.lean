import Mathlib.Data.List.Forall2
import Mathlib.Logic.Basic
import Mathlib.Tactic.Push
import VectorGraph.Engine.Step

/-!
The tasks of a pass as a table from nodes to how far they have come.

`Pass.Gathers` says what the inputs of a node come to once enough of its sources are finished: all
of them, or, when they are taken one by one, all up to a failure that is no fault of the graph. What
is finished stays finished, so that what was gathered once is gathered in every later state of the
pass (`Pass.Gathers.mono`).
-/
namespace VectorGraph.Pass

variable {p q : Pass} {u v : Label}

/-! ## The table -/

theorem progress?_set_self (x : Progress) (h : p.progress? v ≠ none) :
    (p.set v x).progress? v = some x := by
  obtain ⟨y, hy⟩ := Option.ne_none_iff_exists'.mp h
  simp only [progress?, Option.map_eq_some_iff] at hy
  obtain ⟨task, found, -⟩ := hy
  simp only [progress?, set, List.find?_map]
  have same : ((fun task : Label × Progress => task.1 == v) ∘
      fun task => if task.1 == v then (v, x) else task) = fun task => task.1 == v := by
    funext task
    simp only [Function.comp_apply]
    split <;> simp_all
  rw [same, found]
  have hv := List.find?_some found
  simp only [Option.map_some, if_pos hv]

theorem progress?_set_ne (x : Progress) (h : u ≠ v) : (p.set v x).progress? u = p.progress? u := by
  simp only [progress?, set, List.find?_map]
  have same : ((fun task : Label × Progress => task.1 == u) ∘
      fun task => if task.1 == v then (v, x) else task) = fun task => task.1 == u := by
    funext task
    simp only [Function.comp_apply]
    split
    · next hv =>
      rw [beq_iff_eq] at hv
      simp [hv]
    · rfl
  rw [same]
  cases found : p.tasks.find? fun task => task.1 == u with
  | none => rfl
  | some task =>
    have hu := List.find?_some found
    rw [beq_iff_eq] at hu
    simp [hu, h]

theorem progress?_set (x : Progress) (h : p.progress? v ≠ none) :
    (p.set v x).progress? u = if u = v then some x else p.progress? u := by
  by_cases huv : u = v
  · subst huv
    rw [if_pos rfl, progress?_set_self x h]
  · rw [if_neg huv, progress?_set_ne x huv]

theorem progress?_ask : (p.ask v).progress? u =
    if u = v ∧ p.progress? v = none then some .fresh else p.progress? u := by
  unfold ask
  cases hv : p.progress? v with
  | some x => simp
  | none =>
    simp only [Option.isSome_none, Bool.false_eq_true, if_false, and_true]
    simp only [progress?, Option.map_eq_none_iff] at hv
    simp only [progress?, List.find?_append]
    by_cases huv : u = v
    · subst huv
      simp [hv]
    · have hne : (v == u) = false := beq_false_of_ne fun h => huv h.symm
      simp [huv, hne]

/-- Asking for sources makes fresh tasks of those that had not been asked for, and changes nothing
else. -/
theorem progress?_foldl_ask (sources : List Label) : ∀ p : Pass, (sources.foldl ask p).progress? u =
    if u ∈ sources ∧ p.progress? u = none then some .fresh else p.progress? u := by
  induction sources with
  | nil => intro p; simp
  | cons s rest ih =>
    intro p
    rw [List.foldl_cons, ih, progress?_ask]
    by_cases hu : u = s
    · subst hu
      cases p.progress? u <;> simp
    · simp [hu]

theorem exists_ask (p : Pass) (v : Label) : ∃ tasks, p.ask v = { p with tasks } := by
  unfold ask
  split
  · exact ⟨p.tasks, rfl⟩
  · exact ⟨_, rfl⟩

/-- Asking for sources is a matter of the table alone. -/
theorem exists_foldl_ask (sources : List Label) (p : Pass) :
    ∃ tasks, sources.foldl ask p = { p with tasks } := by
  induction sources generalizing p with
  | nil => exact ⟨p.tasks, rfl⟩
  | cons s rest ih =>
    obtain ⟨some_, one⟩ := p.exists_ask s
    obtain ⟨tasks, others⟩ := ih (p.ask s)
    exact ⟨tasks, by rw [List.foldl_cons, others, one]⟩

theorem names_set (x : Progress) : (p.set v x).tasks.map (·.1) = p.tasks.map (·.1) := by
  simp only [set, List.map_map]
  refine List.map_congr_left fun task _ => ?_
  simp only [Function.comp_apply]
  split
  · next h => exact (beq_iff_eq.mp h).symm
  · rfl

theorem mem_names_iff : v ∈ p.tasks.map (·.1) ↔ p.progress? v ≠ none := by
  simp only [progress?, ne_eq, Option.map_eq_none_iff, List.find?_eq_none, beq_iff_eq, List.mem_map]
  push Not
  rfl

theorem nodup_ask (h : (p.tasks.map (·.1)).Nodup) : ((p.ask v).tasks.map (·.1)).Nodup := by
  unfold ask
  split
  · exact h
  · next hv =>
    have hv : v ∉ p.tasks.map (·.1) := by
      rw [mem_names_iff]
      simpa using hv
    rw [List.map_append, List.nodup_append]
    refine ⟨h, by simp, fun a ha b hb => ?_⟩
    rintro rfl
    simp only [List.map_cons, List.map_nil, List.mem_singleton] at hb
    exact hv (hb ▸ ha)

theorem nodup_foldl_ask (sources : List Label) (h : (p.tasks.map (·.1)).Nodup) :
    ((sources.foldl ask p).tasks.map (·.1)).Nodup := by
  induction sources generalizing p with
  | nil => exact h
  | cons s rest ih => exact ih (nodup_ask h)

/-! ## Results -/

theorem result?_eq_some {r : Except Failure Fragment} :
    p.result? v = some r ↔ p.progress? v = some (.finished r) := by
  unfold result?
  cases p.progress? v with
  | none => simp
  | some x => cases x <;> simp

theorem isFinished_iff : p.isFinished v = true ↔ ∃ r, p.result? v = some r := by
  simp [isFinished, Option.isSome_iff_exists]

/-- Every result of `p` is a result of `q`. -/
def ResultsKept (p q : Pass) : Prop := ∀ v r, p.result? v = some r → q.result? v = some r

namespace ResultsKept

theorem refl (p : Pass) : ResultsKept p p := fun _ _ h => h

end ResultsKept

/-! ## What the inputs of a node come to -/

/-- Whether a result lets a node go on to its next input when inputs are taken one by one. -/
def Passable (r : Except Failure Fragment) : Prop := ∀ failure, r = .error failure → failure.isGraphFault

/-- What the inputs of a node come to: the fragments by socket, or the failure that ends the node. -/
inductive Gathers (p : Pass) (sideBySide : Bool) (inputs : List (Label × Label)) :
    Except Failure Inputs → Prop where
  | all (finished : ∀ i ∈ inputs, ∃ r, p.result? i.2 = some r ∧ (sideBySide = false → Passable r)) :
      Gathers p sideBySide inputs (p.collect inputs)
  | early {taken rest : List (Label × Label)} {socket source : Label} {failure : Failure}
      (oneByOne : sideBySide = false) (split : inputs = taken ++ (socket, source) :: rest)
      (passed : ∀ i ∈ taken, ∃ r, p.result? i.2 = some r ∧ Passable r)
      (failed : p.result? source = some (.error failure)) (other : failure.isGraphFault = false) :
      Gathers p sideBySide inputs (.error failure)

theorem collect_nil : p.collect [] = .ok [] := rfl

theorem collect_cons (i : Label × Label) (rest : List (Label × Label)) : p.collect (i :: rest) =
    match p.result? i.2 with
    | none => .error .missingEntry
    | some (.error failure) => .error failure
    | some (.ok f) => (p.collect rest).map ((i.1.nameText, f) :: ·) := by
  simp only [collect, List.mapM_cons]
  cases p.result? i.2 with
  | none => rfl
  | some r =>
    cases r with
    | error failure => rfl
    | ok f =>
      change Except.bind _ _ = Except.map _ _
      generalize List.mapM (m := Except Failure) _ rest = tail
      cases tail <;> rfl

theorem collect_congr {inputs : List (Label × Label)}
    (h : ∀ i ∈ inputs, p.result? i.2 = q.result? i.2) : p.collect inputs = q.collect inputs := by
  induction inputs with
  | nil => rfl
  | cons i rest ih =>
    rw [collect_cons, collect_cons, h i List.mem_cons_self,
      ih fun j hj => h j (List.mem_cons_of_mem i hj)]

theorem Gathers.mono {sideBySide : Bool} {inputs : List (Label × Label)} {got : Except Failure Inputs}
    (h : Gathers p sideBySide inputs got) (kept : ResultsKept p q) : Gathers q sideBySide inputs got := by
  cases h with
  | all finished =>
    have same : p.collect inputs = q.collect inputs := by
      refine collect_congr fun i hi => ?_
      obtain ⟨r, hr, -⟩ := finished i hi
      rw [hr, kept _ r hr]
    rw [same]
    refine .all fun i hi => ?_
    obtain ⟨r, hr, hp⟩ := finished i hi
    exact ⟨r, kept _ r hr, hp⟩
  | early oneByOne split passed failed other =>
    refine .early oneByOne split (fun i hi => ?_) (kept _ _ failed) other
    obtain ⟨r, hr, hp⟩ := passed i hi
    exact ⟨r, kept _ r hr, hp⟩

/-- What is collected are the fragments of the sources, socket by socket. -/
theorem forall₂_collect {inputs : List (Label × Label)} {got : Inputs} (h : p.collect inputs = .ok got) :
    List.Forall₂ (fun i x => x.1 = i.1.nameText ∧ p.result? i.2 = some (.ok x.2)) inputs got := by
  induction inputs generalizing got with
  | nil =>
    rw [collect_nil] at h
    obtain rfl := Except.ok.inj h
    exact .nil
  | cons i rest ih =>
    rw [collect_cons] at h
    split at h
    · cases h
    · cases h
    · next f hf =>
      cases ht : p.collect rest with
      | error failure =>
        rw [ht] at h
        cases h
      | ok tail =>
        rw [ht] at h
        obtain rfl := Except.ok.inj h
        exact .cons ⟨rfl, hf⟩ (ih ht)

/-- What has been gathered in full are the fragments of the sources. -/
theorem Gathers.forall₂ {sideBySide : Bool} {inputs : List (Label × Label)} {got : Inputs}
    (h : Gathers p sideBySide inputs (.ok got)) :
    List.Forall₂ (fun i x => x.1 = i.1.nameText ∧ p.result? i.2 = some (.ok x.2)) inputs got := by
  generalize hr : Except.ok got = r at h
  cases h with
  | all finished => exact forall₂_collect hr.symm
  | early => cases hr

/-- Every source of what has been gathered in full has yielded the fragment on its socket. -/
theorem Gathers.exists_input {sideBySide : Bool} {inputs : List (Label × Label)} {got : Inputs}
    (h : Gathers p sideBySide inputs (.ok got)) {i : Label × Label} (hi : i ∈ inputs) :
    ∃ f, (i.1.nameText, f) ∈ got ∧ p.result? i.2 = some (.ok f) := by
  obtain ⟨n, hn, rfl⟩ := List.getElem_of_mem hi
  obtain ⟨same, each⟩ := List.forall₂_iff_get.mp h.forall₂
  have hx : n < got.length := same ▸ hn
  obtain ⟨name, result⟩ := each n hn hx
  refine ⟨(got.get ⟨n, hx⟩).2, ?_, result⟩
  change ((inputs.get ⟨n, hn⟩).1.nameText, _) ∈ got
  rw [← name]
  exact List.getElem_mem hx

/-- What is not collected in full comes to the failure of the first source that failed. -/
theorem collect_error {inputs : List (Label × Label)} {failure : Failure}
    (finished : ∀ i ∈ inputs, ∃ r, p.result? i.2 = some r) (h : p.collect inputs = .error failure) :
    ∃ before socket source after, inputs = before ++ (socket, source) :: after ∧
      (∀ i ∈ before, ∃ f, p.result? i.2 = some (.ok f)) ∧ p.result? source = some (.error failure) := by
  induction inputs with
  | nil => cases h
  | cons i rest ih =>
    rw [collect_cons] at h
    split at h
    · next unfinished =>
      obtain ⟨r, hr⟩ := finished i List.mem_cons_self
      rw [unfinished] at hr
      cases hr
    · next failed =>
      obtain rfl := Except.error.inj h
      exact ⟨[], i.1, i.2, rest, rfl, fun j hj => absurd hj List.not_mem_nil, failed⟩
    · next f hf =>
      cases ht : p.collect rest with
      | ok tail =>
        rw [ht] at h
        cases h
      | error other =>
        rw [ht] at h
        obtain rfl := Except.error.inj h
        obtain ⟨before, socket, source, after, split, passed, failed⟩ :=
          ih (fun j hj => finished j (List.mem_cons_of_mem i hj)) ht
        refine ⟨i :: before, socket, source, after, by rw [split, List.cons_append], ?_, failed⟩
        exact List.forall_mem_cons.mpr ⟨⟨f, hf⟩, passed⟩

/-- Inputs cannot be gathered in full only if a source has failed. -/
theorem Gathers.exists_failed {sideBySide : Bool} {inputs : List (Label × Label)} {failure : Failure}
    (h : Gathers p sideBySide inputs (.error failure)) :
    ∃ i ∈ inputs, p.result? i.2 = some (.error failure) := by
  generalize hgot : (Except.error failure : Except Failure Inputs) = got at h
  cases h with
  | all finished =>
    obtain ⟨before, socket, source, after, split, -, failed⟩ := collect_error (fun i hi => by
      obtain ⟨r, hr, -⟩ := finished i hi
      exact ⟨r, hr⟩) hgot.symm
    refine ⟨(socket, source), ?_, failed⟩
    rw [split]
    exact List.mem_append_right before List.mem_cons_self
  | @early taken rest socket source _ oneByOne split passed failed other =>
    obtain rfl := Except.error.inj hgot
    refine ⟨(socket, source), ?_, failed⟩
    rw [split]
    exact List.mem_append_right taken List.mem_cons_self

end VectorGraph.Pass
