import VectorGraph.Proofs.Engine.Latest
import VectorGraph.Proofs.Engine.Refused

/-!
Renderings that are superseded.

A rendering after which another was requested is answered with nothing if it has come to a fragment or to a fault of
the graph, and with its failure if that is any other one (`Preview.superseded_raises_iff`); the session is left as it
was. So it is for previews that are ordered side by side (`Studio.carryOut_superseded`): the number of an order is the
one its session has when the order is taken, orders that are taken later only raise it, and nothing changes it when
the results are handed out.
-/
namespace VectorGraph

namespace Preview

variable {v : Preview} {result : Except Failure Fragment} {failure : Failure}

/-- What a superseded rendering is answered with. -/
def answerSuperseded : Except Failure Fragment → Except Failure (Option Fragment)
  | .ok _ => .ok none
  | .error failure => if failure.isGraphFault then .ok none else .error failure

theorem answerSuperseded_eq_error :
    answerSuperseded result = .error failure ↔ result = .error failure ∧ failure.isGraphFault = false := by
  cases result with
  | ok f => simp [answerSuperseded]
  | error other =>
    by_cases same : other = failure
    · subst same
      cases fault : other.isGraphFault <;> simp [answerSuperseded, fault]
    · cases fault : other.isGraphFault <;> simp [answerSuperseded, fault, same]

theorem resolve_other {number : Nat} (other : number ≠ v.generation) (result : Except Failure Fragment) :
    v.resolve number result = (answerSuperseded result, v) := by
  cases result with
  | ok f => simp [resolve, answerSuperseded, other]
  | error failure => cases fault : failure.isGraphFault <;> simp [resolve, answerSuperseded, fault, other]

/-- A rendering after which another was requested is answered so, whatever else has happened meanwhile, and nothing
changes. -/
theorem resolve_told (v : Preview) (before later : List Event) (asked : .request ∈ later)
    (result : Except Failure Fragment) :
    (v.run (before ++ .request :: later)).resolve (v.run before).request.1 result =
      (answerSuperseded result, v.run (before ++ .request :: later)) := by
  apply resolve_other
  intro same
  rw [run_append] at same
  exact (told_eq_generation_iff (v.run before) later).mp same asked

/-- A superseded rendering surfaces where its evaluation has failed, and not for the graph, and nowhere else. -/
theorem superseded_raises_iff {v : Preview} {before later : List Event} (asked : .request ∈ later) :
    ((v.run (before ++ .request :: later)).resolve (v.run before).request.1 result).1 = .error failure ↔
      result = .error failure ∧ failure.isGraphFault = false := by
  rw [resolve_told v before later asked]
  exact answerSuperseded_eq_error

end Preview

/-- The order asks for a rendering of the preview session of an evaluator. -/
def Order.isPreviewOf (order : Order) (n : Nat) : Bool := order.aim == .preview && order.evaluator == n

namespace Studio

variable {s : Studio} {order : Order} {salt : Nat → String} {backEnd : BackEnd}

/-! ## The numbers of the sessions -/

/-- How many renderings of the preview session of an evaluator were requested. -/
def generationOf (s : Studio) (n : Nat) : Nat := ((s.preview? n).map (·.generation)).getD 0

theorem preview?_setPreview (s : Studio) (n m : Nat) (v : Preview) :
    (s.setPreview n v).preview? m = if n = m then (s.preview? m).map fun _ => v else s.preview? m := by
  have kept : ((fun entry : Nat × Preview => entry.1 == m) ∘ fun entry => if entry.1 == n then (n, v) else entry) =
      fun entry => entry.1 == m := by
    funext entry
    by_cases own : entry.1 = n <;> simp [own]
  unfold preview? setPreview
  rw [List.find?_map, kept]
  cases found : s.previews.find? (·.1 == m) with
  | none => simp
  | some entry =>
    have key : entry.1 = m := by simpa using List.find?_some found
    by_cases same : n = m
    · simp [key, same]
    · simp [key, same, Ne.symm same]

/-- The session of an evaluator is there once it was opened, and is the one that is told. -/
theorem preview?_openPreview (s : Studio) (n : Nat) (resolution : Json) :
    (s.openPreview n resolution).2.preview? n = some (s.openPreview n resolution).1 := by
  unfold openPreview
  cases found : s.preview? n with
  | some v => exact found
  | none =>
    have absent : s.previews.find? (·.1 == n) = none := by simpa [preview?] using found
    simp [preview?, List.find?_append, absent]

/-- Opening a session requests no rendering. -/
theorem generationOf_openPreview (s : Studio) (n m : Nat) (resolution : Json) :
    (s.openPreview n resolution).2.generationOf m = s.generationOf m := by
  unfold openPreview
  cases found : s.preview? n with
  | some v => rfl
  | none =>
    have absent : s.previews.find? (·.1 == n) = none := by simpa [preview?] using found
    by_cases same : n = m
    · subst same
      simp [generationOf, preview?, List.find?_append, absent, Preview.ofSettings]
    · simp [generationOf, preview?, List.find?_append, same]

/-- An order raises the number of the session it asks for by one. -/
theorem generationOf_announce (s : Studio) (order : Order) (n : Nat) :
    (s.announce order).2.2.generationOf n = s.generationOf n + if order.isPreviewOf n then 1 else 0 := by
  cases aim : order.aim with
  | fragment => simp [announce, aim, Order.isPreviewOf]
  | document => simp [announce, aim, Order.isPreviewOf]
  | preview =>
    have opened := preview?_openPreview s order.evaluator order.resolution
    have unraised := generationOf_openPreview s order.evaluator n order.resolution
    by_cases same : order.evaluator = n
    · subst same
      simp only [generationOf, opened, Option.map_some, Option.getD_some] at unraised
      simp [announce, aim, generationOf, preview?_setPreview, opened, Order.isPreviewOf, Preview.request, unraised]
    · rw [← unraised]
      simp [announce, aim, generationOf, preview?_setPreview, same, Order.isPreviewOf]

/-- The number that an order is told is the one its session then has. -/
theorem announce_told (s : Studio) (aim : order.aim = .preview) :
    (s.announce order).1 = (s.announce order).2.2.generationOf order.evaluator := by
  simp [announce, aim, generationOf, preview?_setPreview, preview?_openPreview, Preview.request]

/-- Telling the answer changes neither the engine nor the numbers. -/
theorem deliver_kept (s : Studio) (order : Order) (number : Nat) (r : Extent) (result : Except Failure Fragment) :
    (s.deliver order number r result).2.engine = s.engine ∧
      ∀ n, (s.deliver order number r result).2.generationOf n = s.generationOf n := by
  unfold deliver
  cases order.aim with
  | fragment => exact ⟨rfl, fun _ => rfl⟩
  | document => exact ⟨rfl, fun _ => rfl⟩
  | preview =>
    cases found : s.preview? order.evaluator with
    | none => exact ⟨rfl, fun _ => rfl⟩
    | some v =>
      have unmoved : (v.resolve number result).2.generation = v.generation :=
        v.step_generation (.resolve number result)
      refine ⟨rfl, fun n => ?_⟩
      by_cases same : order.evaluator = n
      · subst same
        simp [generationOf, preview?_setPreview, found, unmoved]
      · simp [generationOf, preview?_setPreview, same]

/-- A result that arrives for a lower number than the session has is answered as that of a superseded rendering. -/
theorem deliver_other {number : Nat} (aim : order.aim = .preview) (less : number < s.generationOf order.evaluator)
    (r : Extent) (result : Except Failure Fragment) :
    (s.deliver order number r result).1 = (Preview.answerSuperseded result).map fun _ => .superseded := by
  unfold deliver
  rw [aim]
  cases found : s.preview? order.evaluator with
  | none => simp [generationOf, found] at less
  | some v =>
    have other : number ≠ v.generation := by
      simp only [generationOf, found, Option.map_some, Option.getD_some] at less
      exact Nat.ne_of_lt less
    simp only [Preview.resolve_other other]
    cases result with
    | ok f => rfl
    | error failure => cases fault : failure.isGraphFault <;> simp [Preview.answerSuperseded, fault] <;> rfl

/-! ## Orders that come at the same time -/

/-- Takes orders one after the other. -/
def takeAll (s : Studio) (salt : Nat → String) : List Order → List Booking × List Event × Studio
  | [] => ([], [], s)
  | order :: orders =>
    let taken := s.take salt order
    let others := taken.2.2.takeAll salt orders
    (taken.1 :: others.1, taken.2.1 ++ others.2.1, others.2.2)

/-- Hands out what orders have led to, one after the other. -/
def handOutAll (s : Studio) : List Booking → List (Except Failure Product) × Studio
  | [] => ([], s)
  | booking :: bookings =>
    let handed := s.handOut booking
    let others := handed.2.handOutAll bookings
    (handed.1 :: others.1, others.2)

/-- The studio with all that the orders have led to, before anything is handed out. -/
def settled (s : Studio) (backEnd : BackEnd) (salt : Nat → String) (orders : List Order) : Studio :=
  let taken := s.takeAll salt orders
  { taken.2.2 with engine := taken.2.2.engine.settleAll backEnd taken.2.1 }

theorem foldl_take (s : Studio) (salt : Nat → String) (orders : List Order) (bookings : List Booking)
    (openings : List Event) :
    orders.foldl
      (fun (bookings, openings, s) order =>
        let (booking, due, s) := s.take salt order
        (bookings ++ [booking], openings ++ due, s))
      (bookings, openings, s) =
    (bookings ++ (s.takeAll salt orders).1, openings ++ (s.takeAll salt orders).2.1, (s.takeAll salt orders).2.2) := by
  induction orders generalizing s bookings openings with
  | nil => simp [takeAll]
  | cons order orders ih =>
    rw [List.foldl_cons, ih]
    simp [takeAll]

theorem foldl_handOut (s : Studio) (bookings : List Booking) (results : List (Except Failure Product)) :
    bookings.foldl
      (fun (results, s) booking =>
        let (result, s) := s.handOut booking
        (results ++ [result], s))
      (results, s) =
    (results ++ (s.handOutAll bookings).1, (s.handOutAll bookings).2) := by
  induction bookings generalizing s results with
  | nil => simp [handOutAll]
  | cons booking bookings ih =>
    rw [List.foldl_cons, ih]
    simp [handOutAll]

/-- All orders are taken, then all is settled, then all is handed out. -/
theorem carryOut_eq (s : Studio) (backEnd : BackEnd) (salt : Nat → String) (orders : List Order) :
    s.carryOut backEnd salt orders = (s.settled backEnd salt orders).handOutAll (s.takeAll salt orders).1 := by
  unfold carryOut
  rw [foldl_take]
  dsimp only
  rw [foldl_handOut]
  rfl

theorem takeAll_append (s : Studio) (salt : Nat → String) (orders later : List Order) :
    s.takeAll salt (orders ++ later) =
      let taken := s.takeAll salt orders
      let others := taken.2.2.takeAll salt later
      (taken.1 ++ others.1, taken.2.1 ++ others.2.1, others.2.2) := by
  induction orders generalizing s with
  | nil => rfl
  | cons order orders ih => simp [takeAll, ih]

theorem handOutAll_append (s : Studio) (bookings later : List Booking) :
    s.handOutAll (bookings ++ later) =
      let handed := s.handOutAll bookings
      let others := handed.2.handOutAll later
      (handed.1 ++ others.1, others.2) := by
  induction bookings generalizing s with
  | nil => rfl
  | cons booking bookings ih => simp [handOutAll, ih]

theorem length_takeAll (s : Studio) (salt : Nat → String) (orders : List Order) :
    (s.takeAll salt orders).1.length = orders.length := by
  induction orders generalizing s with
  | nil => rfl
  | cons order orders ih => simp [takeAll, ih]

theorem length_handOutAll (s : Studio) (bookings : List Booking) :
    (s.handOutAll bookings).1.length = bookings.length := by
  induction bookings generalizing s with
  | nil => rfl
  | cons booking bookings ih => simp [handOutAll, ih]

/-! ## The numbers while orders are carried out -/

theorem generationOf_take (s : Studio) (salt : Nat → String) (order : Order) (n : Nat) :
    (s.take salt order).2.2.generationOf n = s.generationOf n + if order.isPreviewOf n then 1 else 0 := by
  rw [← generationOf_announce]
  unfold take
  dsimp only
  split
  · rfl
  · exact (deliver_kept ..).2 n

theorem generationOf_takeAll (s : Studio) (salt : Nat → String) (orders : List Order) (n : Nat) :
    (s.takeAll salt orders).2.2.generationOf n = s.generationOf n + orders.countP (·.isPreviewOf n) := by
  induction orders generalizing s with
  | nil => rfl
  | cons order orders ih =>
    show ((s.take salt order).2.2.takeAll salt orders).2.2.generationOf n = _
    rw [ih, generationOf_take, List.countP_cons]
    omega

/-- The evaluation of a preview that has been taken goes by the number its session then has. -/
theorem take_told {number pass : Nat} {order' : Order} (aim : order.aim = .preview)
    (taken : (s.take salt order).1 = .open order' pass number) :
    order' = order ∧ number = (s.take salt order).2.2.generationOf order.evaluator := by
  rw [generationOf_take, ← generationOf_announce, ← announce_told s aim]
  unfold take at taken
  dsimp only at taken
  split at taken
  · cases taken
    exact ⟨rfl, rfl⟩
  · cases taken

/-- An order that comes after it raises the number of a preview that has been taken. -/
theorem told_lt_generationOf {before later : List Order} {order' : Order} {number pass : Nat}
    (aim : order.aim = .preview)
    (taken : ((s.takeAll salt before).2.2.take salt order).1 = .open order' pass number)
    (another : ∃ o ∈ later, o.isPreviewOf order.evaluator = true) :
    number < (s.takeAll salt (before ++ order :: later)).2.2.generationOf order.evaluator := by
  have raised : 0 < later.countP (·.isPreviewOf order.evaluator) := List.countP_pos_iff.mpr another
  rw [(take_told aim taken).2, takeAll_append]
  show _ < (((s.takeAll salt before).2.2.take salt order).2.2.takeAll salt later).2.2.generationOf order.evaluator
  rw [generationOf_takeAll]
  omega

theorem handOut_kept (s : Studio) (booking : Booking) :
    (s.handOut booking).2.engine = s.engine ∧ ∀ n, (s.handOut booking).2.generationOf n = s.generationOf n := by
  unfold handOut
  split
  · exact ⟨rfl, fun _ => rfl⟩
  · split
    · exact deliver_kept ..
    · exact ⟨rfl, fun _ => rfl⟩

/-- Where the pass of an order is closed, its result is told. -/
theorem handOut_closed {pass number : Nat} {p : Pass} {result : Except Failure Fragment}
    (evaluated : s.engine.passes[pass]? = some p) (closed : p.result = some result) :
    s.handOut (.open order pass number) = s.deliver order number p.resolution result := by
  obtain ⟨⟩ := p
  subst closed
  simp only [handOut, evaluated]

theorem handOutAll_kept (s : Studio) (bookings : List Booking) :
    (s.handOutAll bookings).2.engine = s.engine ∧
      ∀ n, (s.handOutAll bookings).2.generationOf n = s.generationOf n := by
  induction bookings generalizing s with
  | nil => exact ⟨rfl, fun _ => rfl⟩
  | cons booking bookings ih =>
    obtain ⟨engine, numbers⟩ := ih (s.handOut booking).2
    obtain ⟨engine', numbers'⟩ := s.handOut_kept booking
    exact ⟨engine.trans engine', fun n => (numbers n).trans (numbers' n)⟩

/-- A preview that is superseded by one ordered together with it, while it is evaluated. It is answered with nothing
if the evaluation has come to a fragment or to a fault of the graph, and with its failure if that is any other one. -/
theorem carryOut_superseded {before later : List Order} {order' : Order} {number pass : Nat} {p : Pass}
    {result : Except Failure Fragment} (aim : order.aim = .preview)
    (taken : ((s.takeAll salt before).2.2.take salt order).1 = .open order' pass number)
    (another : ∃ o ∈ later, o.isPreviewOf order.evaluator = true)
    (evaluated : (s.settled backEnd salt (before ++ order :: later)).engine.passes[pass]? = some p)
    (closed : p.result = some result) :
    (s.carryOut backEnd salt (before ++ order :: later)).1[before.length]? =
      some ((Preview.answerSuperseded result).map fun _ => .superseded) := by
  have less := told_lt_generationOf aim taken another
  obtain ⟨rfl, -⟩ := take_told aim taken
  obtain ⟨others, bookings⟩ : ∃ others, (s.takeAll salt (before ++ order' :: later)).1 =
      (s.takeAll salt before).1 ++ .open order' pass number :: others := by
    rw [takeAll_append, ← taken]
    exact ⟨_, rfl⟩
  generalize reached : s.settled backEnd salt (before ++ order' :: later) = t at evaluated
  obtain ⟨engine, unchanged⟩ := t.handOutAll_kept (s.takeAll salt before).1
  have answered : ((t.handOutAll (s.takeAll salt before).1).2.handOut (.open order' pass number)).1 =
      (Preview.answerSuperseded result).map fun _ => .superseded := by
    rw [handOut_closed (engine ▸ evaluated) closed]
    apply deliver_other aim
    rw [unchanged, ← reached]
    exact less
  rw [carryOut_eq, reached, bookings, handOutAll_append]
  simp only [handOutAll, answered]
  rw [List.getElem?_append_right (by rw [length_handOutAll, length_takeAll]), length_handOutAll, length_takeAll,
    Nat.sub_self]
  rfl

/-! ## A failure that comes too late -/

/-- A studio with a colour whose red is an integer that no double can hold, and another colour. -/
def oversizedBeside : Studio :=
  { oversized with
    engine := { oversized.engine with graph := oversized.engine.graph.addNode ⟨.text "c", .color, []⟩ } }

/-- Previews of the one and of the other, for the same session. -/
def rivals : List Order := ["n", "c"].map fun target => ⟨0, .preview, .text target, .whole 8⟩

/-- Both are requested before either has come to a result. The preview of the first colour is superseded by that of the
second, and its failure is raised all the same. -/
theorem superseded_preview_raises :
    (oversizedBeside.takeAll (fun _ => "") rivals).1 =
      [.open ⟨0, .preview, .text "n", .whole 8⟩ 0 1, .open ⟨0, .preview, .text "c", .whole 8⟩ 1 2] ∧
    (oversizedBeside.carryOut (fun _ _ => .error .notConfigured) (fun _ => "") rivals).1 =
      [.error .tooLarge,
        .ok (.fragment ⟨"<rect x=\"0\" y=\"0\" width=\"8\" height=\"8\" fill=\"rgb(255,255,255)\"/>", []⟩)] := by
  refine ⟨by with_unfolding_all rfl, by decide +kernel⟩

end Studio

end VectorGraph
