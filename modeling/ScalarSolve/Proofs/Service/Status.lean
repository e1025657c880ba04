import ScalarSolve.Proofs.Expression.Stack
import ScalarSolve.Proofs.Service.Answers
import ScalarSolve.Service.Bodies

/-!
# Statuses

Whoever posts to a solver route gets a result or is told what was wrong with the request; only the
search for a suggestion may also come to nothing.  How a run ends is a result like any other.  The
body says which of the two it is, because faults and only faults have a field `error`.
-/

namespace ScalarSolve.Service

variable {α β ρ : Type} {reader : Reader} {s : Settings} {r : Request}

/-! ## Formulas of requests -/

theorem compile_of_optional
    {compile : String → Except (Formula.SyntaxError Float) (Expression Float)} {text : String}
    {e : Expression Float} (given : optional compile text = .ok (some e)) :
    compile text = .ok e := by
  unfold optional at given
  split at given
  · cases given
  · cases compiled : compile text with
    | error _ =>
        rw [compiled] at given
        cases given
    | ok e' =>
        rw [compiled] at given
        cases given
        rfl

/-- The text of a request is that of this formula, as a function or as a map. -/
def Given (text : String) (e : Option (Expression Float)) : Prop :=
  function? text = .ok e ∨ map? text = .ok e

theorem Given.compiled {text : String} {e : Expression Float} (given : Given text (some e)) :
    Expression.compile text = .ok e ∨ Expression.compileEquation text = .ok e := by
  rcases given with function | map
  · exact .inr (compile_of_optional function)
  · exact .inl (compile_of_optional map)

/-- The formula of a request has a curve and a family of maps. -/
theorem Given.exists_family {text : String} {e : Expression Float} (given : Given text (some e)) :
    ∃ f, e.family = .ok f ∧ e.curve = .ok f.toCurve :=
  Expression.exists_family_of_compile given.compiled

/-! ## Faults of handlers -/

/-- Whatever is wrong is wrong with the request. -/
def OnlyBadRequests (result : Except Fault α) : Prop := ∀ e, result = .error e → e.status = 400

namespace OnlyBadRequests

theorem ok (a : α) : OnlyBadRequests (.ok a : Except Fault α) := by
  intro e h
  cases h

theorem error {e : Fault} (bad : e.status = 400) :
    OnlyBadRequests (.error e : Except Fault α) := by
  intro e' h
  cases h
  exact bad

theorem bind {first : Except Fault α} {next : α → Except Fault β} (h : OnlyBadRequests first)
    (h' : ∀ a, first = .ok a → OnlyBadRequests (next a)) : OnlyBadRequests (first >>= next) := by
  cases first with
  | error e =>
      intro e' eq
      cases eq
      exact h e rfl
  | ok a => exact h' a rfl

theorem ofRange (result : Except (RangeError Float) α) :
    OnlyBadRequests (Service.ofRange result) := by
  cases result with
  | error e => exact error rfl
  | ok a => exact ok a

theorem optional (compile : String → Except (Formula.SyntaxError Float) (Expression Float))
    (text : String) : OnlyBadRequests (Service.optional compile text) := by
  unfold Service.optional
  split
  · exact ok none
  · cases compile text with
    | error e => exact error rfl
    | ok e => exact ok (some e)

theorem limits (t : Float) (n : Nat) : OnlyBadRequests (Service.limits s t n) := by
  unfold Service.limits
  split
  · exact error rfl
  · exact ofRange _

/-- No formula of a request is stopped by the stack. -/
theorem ofStack_curve {text : String} {e : Expression Float} (given : Given text (some e)) :
    OnlyBadRequests (ofStack e.curve) := by
  obtain ⟨f, -, curve⟩ := given.exists_family
  rw [curve]
  exact ok f.toCurve

theorem ofStack_mapM_curve {text : String} {e : Option (Expression Float)} (given : Given text e) :
    OnlyBadRequests (ofStack (e.mapM Expression.curve)) := by
  cases e with
  | none => exact ok none
  | some e =>
      obtain ⟨f, -, curve⟩ := given.exists_family
      rw [Option.mapM_some, curve]
      exact ok (some f.toCurve)

theorem problem (f g : String) (x₀ x₁ t : Float) (n : Nat) :
    OnlyBadRequests (Service.problem s f g x₀ x₁ t n) :=
  (optional _ f).bind fun _ function ↦ (optional _ g).bind fun _ map ↦
  (limits t n).bind fun _ _ ↦ (ofStack_mapM_curve (.inl function)).bind fun _ _ ↦
  (ofStack_mapM_curve (.inr map)).bind fun _ _ ↦ ok _

theorem solve (q : SolveRequest) : OnlyBadRequests (Service.solve s q) :=
  (ofRange _).bind fun _ _ ↦ (problem _ _ _ _ _ _).bind fun _ _ ↦ (ofRange _).bind fun _ _ ↦
  ofRange _

theorem compare (q : CompareRequest) : OnlyBadRequests (Service.compare s q) :=
  (ofRange _).bind fun _ _ ↦ (problem _ _ _ _ _ _).bind fun _ _ ↦ ofRange _

/-- To require a formula and take its curve is no fault of the service. -/
theorem required_curve {name text : String} {e : Option (Expression Float)} (given : Given text e)
    (next : Curve Float → Except Fault α) (h : ∀ f, OnlyBadRequests (next f)) :
    OnlyBadRequests (Service.required name e >>= fun e ↦ ofStack e.curve >>= next) := by
  cases e with
  | none => exact error rfl
  | some e => exact (ofStack_curve given).bind fun f _ ↦ h f

theorem bracket (q : BracketRequest) : OnlyBadRequests (Service.bracket q) :=
  (optional _ _).bind fun _ function ↦ required_curve (.inl function) _ fun _ ↦ ofRange _

theorem check (q : CheckRequest) : OnlyBadRequests (Service.check q) :=
  (optional _ _).bind fun _ map ↦ required_curve (.inr map) _ fun _ ↦ ofRange _

end OnlyBadRequests

/-- A search that starts from no number is refused; any other one ends in a suggestion or without a
stable region. -/
theorem search_cases (effort : Effort Float) (f : Family Float) (x : Float) :
    (∃ a, Suggestion.search effort f x = .ok a) ∨
      Suggestion.search effort f x = .error (.range (.startPoint x)) ∨
      Suggestion.search effort f x = .error (.noStableRegion x) := by
  unfold Suggestion.search
  split
  · exact .inr (.inl rfl)
  · dsimp only
    split
    · exact .inl ⟨_, rfl⟩
    · exact .inr (.inr rfl)

/-- The search that a request asks for ends without a stable region. -/
def SuggestRequest.Fruitless (q : SuggestRequest) : Prop :=
  ∃ e f x, function? q.f = .ok (some e) ∧ e.family = .ok f ∧
    Suggestion.search .default f q.x₀ = .error (.noStableRegion x)

theorem suggest_of_family {q : SuggestRequest} {e : Expression Float} {f : Family Float}
    (compiled : function? q.f = .ok (some e)) (family : e.family = .ok f) :
    suggest q = (Suggestion.search .default f q.x₀).mapError .failure := by
  unfold suggest
  rw [compiled]
  change (ofStack e.family >>= _) = _
  rw [family]
  rfl

/-- Whether a search is fruitless is said by the search for its function. -/
theorem SuggestRequest.fruitless_iff {q : SuggestRequest} {e : Expression Float} {f : Family Float}
    (compiled : function? q.f = .ok (some e)) (family : e.family = .ok f) :
    q.Fruitless ↔ ∃ x, Suggestion.search .default f q.x₀ = .error (.noStableRegion x) := by
  constructor
  · rintro ⟨e', f', x, compiled', family', fruitless⟩
    cases compiled.symm.trans compiled'
    cases family.symm.trans family'
    exact ⟨x, fruitless⟩
  · rintro ⟨x, fruitless⟩
    exact ⟨e, f, x, compiled, family, fruitless⟩

/-- What a search is refused for is wrong with the request, unless the search was fruitless. -/
theorem suggest_cases (q : SuggestRequest) :
    OnlyBadRequests (suggest q) ∧ ¬ q.Fruitless ∨
      ∃ x, suggest q = .error (.failure (.noStableRegion x)) ∧ q.Fruitless := by
  cases compiled : function? q.f with
  | error e =>
      unfold suggest
      rw [compiled]
      refine .inl ⟨.error (OnlyBadRequests.optional _ q.f e compiled), ?_⟩
      rintro ⟨e, f, x, given, -⟩
      cases compiled.symm.trans given
  | ok formula =>
      cases formula with
      | none =>
          unfold suggest
          rw [compiled]
          refine .inl ⟨.error rfl, ?_⟩
          rintro ⟨e, f, x, given, -⟩
          cases compiled.symm.trans given
      | some e =>
          obtain ⟨f, family, -⟩ := Given.exists_family (.inl compiled)
          rw [suggest_of_family compiled family, SuggestRequest.fruitless_iff compiled family]
          rcases search_cases .default f q.x₀ with ⟨found, eq⟩ | eq | eq
          · rw [eq]
            refine .inl ⟨.ok found, ?_⟩
            rintro ⟨x, ⟨⟩⟩
          · rw [eq]
            refine .inl ⟨.error rfl, ?_⟩
            rintro ⟨x, ⟨⟩⟩
          · rw [eq]
            exact .inr ⟨q.x₀, rfl, q.x₀, rfl⟩

/-! ## Responses -/

namespace Response

/-- A result has no field `error`, and a fault has that field alone. -/
structure Marked (r : Response) : Prop where
  result : r.status = 200 → ∃ body, r.body = some body ∧ body.field? "error" = none
  fault : r.status ≠ 200 → ∃ text, r.body = some (.object [("error", .string text)])

theorem marked_ofFault (e : Fault) : (ofFault e).Marked where
  result success := absurd success e.status_ne_ok
  fault _ := ⟨e.message, rfl⟩

theorem marked_ofResult {encode : α → Json} (clean : ∀ a, (encode a).field? "error" = none)
    (result : Except Fault α) : (ofResult encode result).Marked := by
  cases result with
  | error e => exact marked_ofFault e
  | ok a =>
      constructor
      · exact fun _ ↦ ⟨encode a, rfl, clean a⟩
      · exact fun failure ↦ absurd rfl failure

end Response

theorem OnlyBadRequests.status_ofResult {result : Except Fault α} (bad : OnlyBadRequests result)
    (encode : α → Json) :
    (Response.ofResult encode result).status = 200 ∨
      (Response.ofResult encode result).status = 400 := by
  cases result with
  | error e => exact .inr (bad e rfl)
  | ok a => exact .inl rfl

theorem marked_answerBody {decode : Json.Document → Option ρ} {handle : ρ → Except Fault α}
    {encode : α → Json} (clean : ∀ a, (encode a).field? "error" = none) (r : Request) :
    (answerBody reader decode handle encode r).Marked := by
  unfold answerBody
  split
  · exact Response.marked_ofResult clean _
  · exact Response.marked_ofFault _

theorem status_answerBody {decode : Json.Document → Option ρ} {handle : ρ → Except Fault α}
    {encode : α → Json} (bad : ∀ q, OnlyBadRequests (handle q)) (r : Request) :
    (answerBody reader decode handle encode r).status = 200 ∨
      (answerBody reader decode handle encode r).status = 400 := by
  unfold answerBody
  split
  · exact (bad _).status_ofResult encode
  · exact .inr rfl

/-- What is answered with status 200 has no field `error`, whatever the route. -/
theorem marked_answer {route : Route} (solver : route.isProbe = false) (reader : Reader)
    (s : Settings) (r : Request) : (answer reader s r route).Marked := by
  cases route with
  | solve =>
      refine marked_answerBody (fun run ↦ ?_) r
      unfold runBody
      cases run.message? <;> rfl
  | compare => exact marked_answerBody (fun _ ↦ rfl) r
  | bracket => exact marked_answerBody (fun _ ↦ rfl) r
  | check => exact marked_answerBody (fun _ ↦ rfl) r
  | suggest => exact marked_answerBody (fun _ ↦ rfl) r
  | health => cases solver
  | ready => cases solver

/-- Where no suggestion is searched for, only the request can be at fault. -/
theorem status_answer {route : Route} (solver : route.isProbe = false) (other : route ≠ .suggest)
    (reader : Reader) (s : Settings) (r : Request) :
    (answer reader s r route).status = 200 ∨ (answer reader s r route).status = 400 := by
  cases route with
  | solve => exact status_answerBody OnlyBadRequests.solve r
  | compare => exact status_answerBody OnlyBadRequests.compare r
  | bracket => exact status_answerBody OnlyBadRequests.bracket r
  | check => exact status_answerBody OnlyBadRequests.check r
  | suggest => exact absurd rfl other
  | health => cases solver
  | ready => cases solver

/-- A search answers 422 just when it is fruitless. -/
theorem status_suggest (reader : Reader) (s : Settings) (r : Request) :
    ((answer reader s r .suggest).status = 200 ∨ (answer reader s r .suggest).status = 400 ∨
      (answer reader s r .suggest).status = 422) ∧
    ((answer reader s r .suggest).status = 422 ↔
      ∃ q, reader.read? SuggestRequest.ofDocument? r = some q ∧ q.Fruitless) := by
  have fruitful {n : Nat} (known : n = 200 ∨ n = 400) :
      (n = 200 ∨ n = 400 ∨ n = 422) ∧ n ≠ 422 := by
    omega
  unfold answer answerBody
  cases stated : reader.read? SuggestRequest.ofDocument? r with
  | none =>
      have bad : (Fault.body (reader.rejection r)).status = 400 := rfl
      obtain ⟨known, other⟩ := fruitful (.inr bad)
      refine ⟨known, iff_of_false other ?_⟩
      rintro ⟨q, ⟨⟩, -⟩
  | some q =>
      rcases suggest_cases q with ⟨bad, none⟩ | ⟨x, eq, fruitless⟩
      · obtain ⟨known, other⟩ := fruitful (bad.status_ofResult suggestionBody)
        refine ⟨known, iff_of_false other ?_⟩
        rintro ⟨q', ⟨⟩, fruitless⟩
        exact none fruitless
      · dsimp only
        rw [eq]
        exact ⟨.inr (.inr rfl), iff_of_true rfl ⟨q, rfl, fruitless⟩⟩

/-- Of all solver routes only the search can answer 422. -/
theorem status_cases {route : Route} (solver : route.isProbe = false) (reader : Reader)
    (s : Settings) (r : Request) :
    ((answer reader s r route).status = 200 ∨ (answer reader s r route).status = 400 ∨
      route = .suggest ∧ (answer reader s r route).status = 422) ∧
    ((answer reader s r route).status = 422 ↔ route = .suggest ∧
      ∃ q, reader.read? SuggestRequest.ofDocument? r = some q ∧ q.Fruitless) := by
  by_cases search : route = .suggest
  · subst search
    obtain ⟨known, fruitless⟩ := status_suggest reader s r
    refine ⟨known.imp_right (Or.imp_right fun status ↦ ⟨rfl, status⟩), ?_⟩
    exact fruitless.trans (and_iff_right rfl).symm
  · have known := status_answer solver search reader s r
    refine ⟨known.imp_right .inl, iff_of_false ?_ fun fruitless ↦ search fruitless.1⟩
    omega

/-! ## Runs -/

/-- A request for one method that is refused for nothing. -/
structure SolveRequest.Accepted (s : Settings) (q : SolveRequest) (m : Method)
    (p : Problem Float) : Prop extends q.States s m p where
  checked : ∀ c ∈ m.checks (q.asks p), c.holds

/-- A request for several methods that is refused for nothing. -/
structure CompareRequest.Accepted (s : Settings) (q : CompareRequest) (ms : List Method)
    (p : Problem Float) : Prop extends q.States s ms p where
  nonempty : ms ≠ []
  checked : ∀ m ∈ ms, ∀ c ∈ m.checks p, c.holds

theorem SolveRequest.Accepted.solve_eq_ok {q : SolveRequest} {m : Method} {p : Problem Float}
    (accepted : q.Accepted s m p) :
    ∃ run, m.run (q.asks p) = .ok run ∧ solve s q = .ok run := by
  obtain ⟨run, ran⟩ := Method.exists_run accepted.checked
  exact ⟨run, ran, Service.solve_eq_ok.mpr ⟨m, p, accepted.toStates, ran⟩⟩

theorem CompareRequest.Accepted.compare_eq_ok {q : CompareRequest} {ms : List Method}
    {p : Problem Float} (accepted : q.Accepted s ms p) :
    ∃ rows, p.compare ms = .ok rows ∧ compare s q = .ok rows := by
  have runs : p.Runs ms := fun m mem ↦ Method.exists_run (accepted.checked m mem)
  have ok := Problem.compare_eq_ok.mpr ⟨accepted.nonempty, runs, rfl⟩
  exact ⟨_, ok, Service.compare_eq_ok.mpr ⟨ms, p, accepted.toStates, ok⟩⟩

/-! ## Evaluations -/

/-- No evaluation of a formula or of a map over it, over any scalars, meets an end of the stack. -/
def KeepsToStack (e : Expression Float) : Prop :=
  ∀ (S : Type) [Scalar Float S] (x : S) (why : StackFault), e.evalScalar x ≠ .error (.fault why) ∧
    ∀ α, (e.residualMap α).evalScalar x ≠ .error (.fault why)

/-- The formulas that requests are answered with. -/
theorem Given.keepsToStack {text : String} {e : Expression Float} (given : Given text (some e)) :
    KeepsToStack e := by
  obtain ⟨pushes, fits⟩ :=
    given.compiled.elim Expression.pushes_of_compile Expression.pushes_of_compile
  -- The limit on compiled formulas leaves room for more than the one map.
  have room : e.program.depth + 8 ≤ stackCapacity := Nat.add_le_add_right fits 8
  have mapRoom (α : Float) : (e.residualMap α).program.depth ≤ stackCapacity := by
    rw [Expression.residualMap, Program.depth_residualMap]
    omega
  intro S _ x why
  refine ⟨Program.execute_faultFree pushes (by omega) x why, fun α ↦ ?_⟩
  exact Program.execute_faultFree (Program.pushes_residualMap pushes α) (mapRoom α) x why

/-! ## Answers -/

/-- A posted request is answered 200 or 400, or 422 if it is a search that finds no stable region,
however bodies are read.  A run that is accepted has an outcome and is answered 200 with it, however
it ends.  Faults and only faults have a field `error`.  An answer depends on no evaluation that
would break the machine, because there is none. -/
theorem status_discipline (reader : Reader) (s : Settings) (r : Request) (route : Route)
    (posted : r.PostedTo route) (solver : route.isProbe = false) :
    ((respond reader s r).status = 200 ∨ (respond reader s r).status = 400 ∨
      route = .suggest ∧ (respond reader s r).status = 422) ∧
    ((respond reader s r).status = 422 ↔ route = .suggest ∧
      ∃ q, reader.read? SuggestRequest.ofDocument? r = some q ∧ q.Fruitless) ∧
    (∀ q m p, route = .solve → reader.read? SolveRequest.ofDocument? r = some q →
      q.Accepted s m p →
        ∃ run, m.run (q.asks p) = .ok run ∧ respond reader s r = .json 200 (runBody run)) ∧
    (∀ q ms p, route = .compare → reader.read? CompareRequest.ofDocument? r = some q →
      q.Accepted s ms p → ∃ rows, p.compare ms = .ok rows ∧
        respond reader s r = .json 200 (.array (rows.map rowBody))) ∧
    (respond reader s r).Marked ∧
    ∀ text e, function? text = .ok (some e) ∨ map? text = .ok (some e) → KeepsToStack e := by
  rw [respond_of_posted posted solver]
  obtain ⟨known, fruitless⟩ := status_cases solver reader s r
  refine ⟨known, fruitless, ?_, ?_, marked_answer solver reader s r, fun _ _ ↦ Given.keepsToStack⟩
  · rintro q m p rfl stated accepted
    obtain ⟨run, ran, ok⟩ := accepted.solve_eq_ok
    refine ⟨run, ran, (answerBody_of_read stated).trans ?_⟩
    rw [ok]
    rfl
  · rintro q ms p rfl stated accepted
    obtain ⟨rows, compared, ok⟩ := accepted.compare_eq_ok
    refine ⟨rows, compared, (answerBody_of_read stated).trans ?_⟩
    rw [ok]
    rfl

/-- The formula `5`. -/
def five : Expression Float := ⟨"5", ⟨[.const 5], 1⟩⟩

/-- The formula `5` with the maps `x - α · 5` around it. -/
def fiveMaps : Family Float :=
  five.familyOfFits (by decide +kernel) (by decide +kernel)

theorem family_five : five.family = .ok fiveMaps := (dif_pos _).trans (dif_pos _)

/-- A constant has no slope that a map could be built from. -/
theorem status_discipline_constant :
    (respond .json .default (Route.suggest.post "\x7b\"f\":\"5\"\x7d")).status = 422 ∧
      ∃ text, (respond .json .default (Route.suggest.post "\x7b\"f\":\"5\"\x7d")).body =
        some (.object [("error", .string text)]) := by
  obtain ⟨-, fruitless, -, -, marked, -⟩ := status_discipline .json .default
    (Route.suggest.post "\x7b\"f\":\"5\"\x7d") .suggest (Route.post_postedTo _ _) rfl
  have status := fruitless.mpr ⟨rfl, ⟨"5", 0⟩, by decide +kernel,
    five, fiveMaps, 0, by decide +kernel, family_five, by decide +kernel⟩
  exact ⟨status, marked.fault (by rw [status]; decide)⟩

end ScalarSolve.Service
