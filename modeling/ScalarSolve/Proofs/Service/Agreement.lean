import ScalarSolve.Proofs.Service.Answers
import ScalarSolve.Service.Bodies
import Mathlib.Data.List.Forall2

/-!
# A comparison and its single requests

A comparison can be asked for at once, or by a request for each of its methods.  Either way the same
problem is stated, and the service answers the one just when it answers all of the others.
-/

namespace ScalarSolve.Service

variable {s : Settings}

/-- The request for one of the methods of a comparison. -/
def CompareRequest.single (q : CompareRequest) (name : String) : SolveRequest where
  method := name
  f := q.f
  g := q.g
  x₀ := q.x₀
  x₁ := q.x₁
  tolerance := q.tolerance
  maxIterations := q.maxIterations
  numericDerivative := false
  relax := 1

/-! ## Handlers -/

variable {q : CompareRequest} {name : String} {run : Run Float} {ms : List Method}
  {p : Problem Float}

/-- A single request asks for nothing that a comparison would not take. -/
theorem asks_single (stated : problem s q.f q.g q.x₀ q.x₁ q.tolerance q.maxIterations = .ok p) :
    (q.single name).asks p = p := by
  obtain ⟨relax, derivative⟩ := relax_derivative_of_problem stated
  obtain ⟨f, g, x₀, x₁, l, w, d⟩ := p
  cases relax
  cases derivative
  rfl

theorem solve_single_eq_ok :
    solve s (q.single name) = .ok run ↔
      ∃ m p, (q.single name).States s m p ∧ m.run p = .ok run := by
  rw [solve_eq_ok]
  refine exists₂_congr fun m p ↦ and_congr_right fun states ↦ ?_
  rw [asks_single states.stated]

/-- If every single request has a run, the comparison names methods and states a problem. -/
theorem states_of_singles (nonempty : q.methods ≠ [])
    (singles : ∀ name ∈ q.methods, ∃ run, solve s (q.single name) = .ok run) :
    ∃ ms p, q.States s ms p := by
  have known : ∀ name ∈ q.methods, ∃ m,
      (Method.named (Text.trim name) : Except (RangeError Float) Method) = .ok m := by
    intro name mem
    obtain ⟨run, ok⟩ := singles name mem
    obtain ⟨m, _, states, _⟩ := solve_single_eq_ok.mp ok
    exact ⟨m, Method.named_eq_ok.mpr states.named⟩
  obtain ⟨first, mem⟩ := List.exists_mem_of_ne_nil q.methods nonempty
  obtain ⟨run, ok⟩ := singles first mem
  obtain ⟨_, p, states, _⟩ := solve_single_eq_ok.mp ok
  exact ⟨_, p, mapM_named_eq_ok.mp (mapM_eq_ok.mpr ⟨known, rfl⟩), states.stated⟩

/-- The methods of a comparison can be run just when each single request has a run. -/
theorem CompareRequest.States.runs_iff (states : q.States s ms p) :
    p.Runs ms ↔ ∀ name ∈ q.methods, ∃ run, solve s (q.single name) = .ok run := by
  constructor
  · intro runs name mem
    have known : Text.trim name ∈ ms.map Method.name := states.named ▸ List.mem_map_of_mem mem
    obtain ⟨m, memMs, eq⟩ := List.mem_map.mp known
    obtain ⟨run, ran⟩ := runs m memMs
    exact ⟨run, solve_single_eq_ok.mpr ⟨m, p, ⟨eq.symm, states.stated⟩, ran⟩⟩
  · intro singles m mem
    have asked : m.name ∈ q.methods.map Text.trim := states.named ▸ List.mem_map_of_mem mem
    -- Several of the names may be trimmed to this method, and any of them will do.
    obtain ⟨name, memName, eq⟩ := List.mem_map.mp asked
    obtain ⟨run, ok⟩ := singles name memName
    obtain ⟨m', p', ⟨named, stated⟩, ran⟩ := solve_single_eq_ok.mp ok
    cases Method.name_injective (eq.symm.trans named)
    cases states.stated.symm.trans stated
    exact ⟨run, ran⟩

/-- A comparison that names methods has rows just when each of its single requests has a run. -/
theorem exists_rows_iff (nonempty : q.methods ≠ []) :
    (∃ rows, compare s q = .ok rows) ↔
      ∀ name ∈ q.methods, ∃ run, solve s (q.single name) = .ok run := by
  constructor
  · rintro ⟨rows, ok⟩
    obtain ⟨ms, p, states, compared⟩ := compare_eq_ok.mp ok
    obtain ⟨-, runs, -⟩ := Problem.compare_eq_ok.mp compared
    exact states.runs_iff.mp runs
  · intro singles
    obtain ⟨ms, p, states⟩ := states_of_singles nonempty singles
    have some_method : ms ≠ [] := by
      rintro rfl
      exact nonempty (List.map_eq_nil_iff.mp states.named)
    have compared := Problem.compare_eq_ok.mpr ⟨some_method, states.runs_iff.mpr singles, rfl⟩
    exact ⟨_, compare_eq_ok.mpr ⟨ms, p, states, compared⟩⟩

/-! ## Rows -/

/-- The rows stand for the distinct names, in the order in which these are first given, and the row
of a name has what its own run says. -/
theorem rows_of_compare {rows : List (Row Float)} (ok : compare s q = .ok rows) :
    (q.methods.map Text.trim).eraseDups = rows.map (·.method.name) ∧
      ∀ row ∈ rows, ∀ name, Text.trim name = row.method.name →
        ∃ run, solve s (q.single name) = .ok run ∧ row = .ofRun row.method run := by
  obtain ⟨ms, p, states, compared⟩ := compare_eq_ok.mp ok
  obtain ⟨-, runs, rfl⟩ := Problem.compare_eq_ok.mp compared
  refine ⟨?_, ?_⟩
  · have methods := (Problem.runs_eraseDups.mpr runs).map_method
    calc (q.methods.map Text.trim).eraseDups
      _ = (ms.map Method.name).eraseDups := by rw [states.named]
      _ = ms.eraseDups.map Method.name := eraseDups_map Method.name_injective ms
      _ = ((ms.eraseDups.filterMap p.row?).map Row.method).map Method.name := by rw [methods]
      _ = (ms.eraseDups.filterMap p.row?).map (·.method.name) := List.map_map
  · intro row mem name eq
    obtain ⟨run, ran, same⟩ := Problem.row?_eq_some.mp (Problem.row?_method mem)
    exact ⟨run, solve_single_eq_ok.mpr ⟨row.method, p, ⟨eq, states.stated⟩, ran⟩, same⟩

/-! ## Answers -/

/-- The row of a comparison for this name, with the numbers of a single answer. -/
def SameOutcome (row : Json) (name : String) (single : Response) : Prop :=
  ∃ iterations converged root body,
    row = .object [("method", .string name), ("iters", iterations), ("converged", converged),
      ("root", root)] ∧
    single.body = some body ∧ body.field? "iterations" = some iterations ∧
      body.field? "converged" = some converged ∧ body.field? "root" = some root

theorem sameOutcome (m : Method) (run : Run Float) :
    SameOutcome (rowBody (.ofRun m run)) m.name (.json 200 (runBody run)) :=
  ⟨_, _, _, _, rfl, rfl, rfl, rfl, rfl⟩

/-- A comparison that names methods is answered 200 just when the single request for each of its
names is, whatever the settings are, however bodies are read and whatever the requests look like
that state this.  It then has a row for each distinct name, blanks around it apart, in the order in
which these are first given, and the row has the numbers of the single answer for that name. -/
theorem compare_agrees_with_solve (reader : Reader) (s : Settings) (q : CompareRequest)
    (nonempty : q.methods ≠ []) (r : Request) (posted : r.PostedTo .compare)
    (stated : reader.read? CompareRequest.ofDocument? r = some q)
    (single : String → Request) (each_posted : ∀ name ∈ q.methods, (single name).PostedTo .solve)
    (each_stated : ∀ name ∈ q.methods,
      reader.read? SolveRequest.ofDocument? (single name) = some (q.single name)) :
    ((respond reader s r).status = 200 ↔
      ∀ name ∈ q.methods, (respond reader s (single name)).status = 200) ∧
    ((respond reader s r).status = 200 → ∃ rows, (respond reader s r).body = some (.array rows) ∧
      List.Forall₂ (fun row name ↦ ∀ given ∈ q.methods, Text.trim given = name →
          SameOutcome row name (respond reader s (single given)))
        rows (q.methods.map Text.trim).eraseDups) := by
  have whole : respond reader s r =
      .ofResult (fun rows ↦ .array (rows.map rowBody)) (compare s q) := by
    rw [respond_of_posted posted rfl]
    exact answerBody_of_read stated
  have part : ∀ name ∈ q.methods,
      respond reader s (single name) = .ofResult runBody (solve s (q.single name)) := by
    intro name mem
    rw [respond_of_posted (each_posted name mem) rfl]
    exact answerBody_of_read (each_stated name mem)
  refine ⟨?_, ?_⟩
  · rw [whole, Response.status_ofResult, exists_rows_iff nonempty]
    refine forall₂_congr fun name mem ↦ ?_
    rw [part name mem, Response.status_ofResult]
  · intro success
    rw [whole] at success ⊢
    obtain ⟨rows, ok⟩ := Response.status_ofResult.mp success
    obtain ⟨names, outcomes⟩ := rows_of_compare ok
    rw [ok]
    refine ⟨rows.map rowBody, rfl, ?_⟩
    rw [names, List.forall₂_map_left_iff, List.forall₂_map_right_iff, List.forall₂_same]
    intro row mem given memGiven eq
    obtain ⟨run, ran, same⟩ := outcomes row mem given eq
    rw [part given memGiven, ran, same]
    exact sameOutcome row.method run

/-- Two methods on the line `2x - 1`, one of them named twice. -/
def CompareRequest.onLine : CompareRequest where
  methods := ["newton", " secant", "newton"]
  f := "2*x-1"
  g := ""
  x₀ := 0
  x₁ := 1
  tolerance := defaultTolerance
  maxIterations := defaultIterations

/-- The request for one of the methods on the line. -/
def solveOnLine (name : String) : Request :=
  Route.solve.post ("\x7b\"method\":\"" ++ name ++ "\",\"f\":\"2*x-1\",\"x1\":1\x7d")

/-- Two rows for three names, with the numbers of three single answers. -/
theorem compare_agrees_with_solve_onLine :
    ∃ rows, (respond .json .default (Route.compare.post
        "[[\"newton\",\" secant\",\"newton\"],\"2*x-1\",\"\",0,1]")).body = some (.array rows) ∧
      List.Forall₂ (fun row name ↦ ∀ given ∈ ["newton", " secant", "newton"],
          Text.trim given = name →
            SameOutcome row name (respond .json .default (solveOnLine given)))
        rows ["newton", "secant"] := by
  obtain ⟨agrees, rows⟩ := compare_agrees_with_solve .json .default .onLine (by decide)
    (Route.compare.post "[[\"newton\",\" secant\",\"newton\"],\"2*x-1\",\"\",0,1]")
    (Route.post_postedTo _ _) (by decide +kernel) solveOnLine
    (fun _ _ ↦ Route.post_postedTo _ _) (by decide +kernel)
  have distinct :
      (CompareRequest.onLine.methods.map Text.trim).eraseDups = ["newton", "secant"] := by
    decide +kernel
  rw [distinct] at rows
  exact rows (agrees.mpr (by decide +kernel))

end ScalarSolve.Service
