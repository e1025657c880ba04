import ScalarSolve.Proofs.Solve.Comparison
import ScalarSolve.Service.Routes

/-!
# What is answered

The solver routes all answer in one way.  What is posted is read; if it states a request the handler
is asked, and its result is the answer, or else the fault that it meets.  A handler takes a request
through steps that may each refuse it, and these are said here once for each handler.
-/

namespace ScalarSolve

/-- The value of a field, if this is an object that has it. -/
def Json.field? (name : String) : Json → Option Json
  | .object fields => fields.lookup name
  | .null | .bool _ | .number _ | .string _ | .array _ => none

/-- A method is found under its own name and no other. -/
theorem Method.ofName?_eq_some {name : String} {m : Method} :
    ofName? name = some m ↔ name = m.name := by
  constructor
  · intro found
    unfold ofName? at found
    have same := List.find?_some found
    exact (eq_of_beq same).symm
  · rintro rfl
    exact ofName?_name m

theorem Method.name_injective : Function.Injective name := by
  intro m m' same
  have found := ofName?_eq_some.mpr same
  rw [ofName?_name] at found
  exact Option.some.inj found

theorem Method.named_eq_ok {F : Type} {name : String} {m : Method} :
    (named name : Except (RangeError F) Method) = .ok m ↔ name = m.name := by
  rw [← ofName?_eq_some]
  unfold named
  cases ofName? name <;> simp

namespace Service

variable {α ρ : Type} {reader : Reader} {s : Settings} {r : Request}

/-! ## Responses -/

/-- A fault is never taken for a success. -/
theorem Fault.status_ne_ok (e : Fault) : e.status ≠ 200 := by
  fun_cases status e <;> decide

theorem Response.status_ofResult {encode : α → Json} {result : Except Fault α} :
    (ofResult encode result).status = 200 ↔ ∃ a, result = .ok a := by
  cases result with
  | error e =>
      refine iff_of_false e.status_ne_ok ?_
      rintro ⟨a, ⟨⟩⟩
  | ok a => exact iff_of_true rfl ⟨a, rfl⟩

/-! ## Requests -/

/-- The request is posted to the place of the route. -/
structure Request.PostedTo (r : Request) (route : Route) : Prop where
  method : r.method = "POST"
  path : Route.ofPath? r.path = some route

/-- A JSON body posted to the place of a route. -/
def Route.post (route : Route) (body : String) : Request :=
  { method := "POST", path := route.path, contentType := some "application/json", body }

/-- Every route is found at its path. -/
theorem Route.ofPath?_path (route : Route) : ofPath? route.path = some route := by
  cases route <;> decide +kernel

theorem Route.post_postedTo (route : Route) (body : String) :
    (route.post body).PostedTo route :=
  ⟨rfl, route.ofPath?_path⟩

theorem respond_of_posted {route : Route} (posted : r.PostedTo route)
    (solver : route.isProbe = false) : respond reader s r = answer reader s r route := by
  unfold respond
  rw [posted.path, posted.method]
  simp [solver]

theorem answerBody_of_read {decode : Json.Document → Option ρ} {handle : ρ → Except Fault α}
    {encode : α → Json} {q : ρ} (stated : reader.read? decode r = some q) :
    answerBody reader decode handle encode r = .ofResult encode (handle q) := by
  rw [answerBody, stated]

/-! ## Handlers -/

theorem ofRange_eq_ok {result : Except (RangeError Float) α} {a : α} :
    ofRange result = .ok a ↔ result = .ok a := mapError_eq_ok

/-- Of what a problem takes from a request nothing changes how the methods go about it. -/
theorem relax_derivative_of_problem {f g : String} {x₀ x₁ t : Float} {n : Nat} {p : Problem Float}
    (stated : problem s f g x₀ x₁ t n = .ok p) :
    p.relax = Arith.one ∧ p.derivative = .analytic := by
  unfold problem at stated
  obtain ⟨f, -, stated⟩ := bind_eq_ok.mp stated
  obtain ⟨g, -, stated⟩ := bind_eq_ok.mp stated
  obtain ⟨l, -, stated⟩ := bind_eq_ok.mp stated
  obtain ⟨f, -, stated⟩ := bind_eq_ok.mp stated
  obtain ⟨g, -, stated⟩ := bind_eq_ok.mp stated
  cases stated
  exact ⟨rfl, rfl⟩

/-- The problem with what a request asks of the method. -/
def SolveRequest.asks (q : SolveRequest) (p : Problem Float) : Problem Float :=
  { p with
    relax := q.relax
    derivative := if q.numericDerivative then .numeric none else .analytic }

/-- The request names a method and states a problem. -/
structure SolveRequest.States (s : Settings) (q : SolveRequest) (m : Method)
    (p : Problem Float) : Prop where
  named : Text.trim q.method = m.name
  stated : problem s q.f q.g q.x₀ q.x₁ q.tolerance q.maxIterations = .ok p

/-- The request names these methods, one after another, and states a problem. -/
structure CompareRequest.States (s : Settings) (q : CompareRequest) (ms : List Method)
    (p : Problem Float) : Prop where
  named : q.methods.map Text.trim = ms.map Method.name
  stated : problem s q.f q.g q.x₀ q.x₁ q.tolerance q.maxIterations = .ok p

/-- A single run is that of the method named on the problem stated. -/
theorem solve_eq_ok {q : SolveRequest} {run : Run Float} :
    solve s q = .ok run ↔ ∃ m p, q.States s m p ∧ m.run (q.asks p) = .ok run := by
  unfold solve
  simp only [bind_eq_ok, ofRange_eq_ok, Method.named_eq_ok]
  constructor
  · rintro ⟨m, named, p, stated, -, -, ran⟩
    exact ⟨m, p, ⟨named, stated⟩, ran⟩
  · rintro ⟨m, p, ⟨named, stated⟩, ran⟩
    have runs : (q.asks p).Runs [m] := by
      intro m' mem
      rw [List.mem_singleton.mp mem]
      exact ⟨run, ran⟩
    exact ⟨m, named, p, stated, (), (runs.checks (List.cons_ne_nil m [])).2, ran⟩

/-- Names are looked up one after another, and all of them are known. -/
theorem mapM_named_eq_ok {names : List String} {ms : List Method} :
    names.mapM (fun name ↦ (Method.named (Text.trim name) : Except (RangeError Float) Method))
      = .ok ms ↔ names.map Text.trim = ms.map Method.name := by
  induction names generalizing ms with
  | nil => simp [pure, Except.pure, eq_comm]
  | cons name names ih =>
      simp only [List.mapM_cons, bind_eq_ok, Method.named_eq_ok, ih, pure, Except.pure,
        Except.ok.injEq, List.map_cons]
      constructor
      · rintro ⟨m, known, ms, rest, rfl⟩
        rw [known, rest, List.map_cons]
      · intro eq
        cases ms with
        | nil => cases eq
        | cons m ms =>
            obtain ⟨known, rest⟩ := List.cons.inj eq
            exact ⟨m, known, ms, rest, rfl⟩

/-- A comparison is that of the methods named on the problem stated. -/
theorem compare_eq_ok {q : CompareRequest} {rows : List (Row Float)} :
    compare s q = .ok rows ↔ ∃ ms p, q.States s ms p ∧ p.compare ms = .ok rows := by
  unfold compare
  simp only [bind_eq_ok, ofRange_eq_ok, mapM_named_eq_ok]
  constructor
  · rintro ⟨ms, named, p, stated, compared⟩
    exact ⟨ms, p, ⟨named, stated⟩, compared⟩
  · rintro ⟨ms, p, ⟨named, stated⟩, compared⟩
    exact ⟨ms, named, p, stated, compared⟩

end Service

end ScalarSolve
