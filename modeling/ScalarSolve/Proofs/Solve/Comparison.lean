import ScalarSolve.Proofs.Result
import ScalarSolve.Proofs.Solve.Validation
import ScalarSolve.Solve.Comparison
import Mathlib.Data.List.Induction

/-!
# Comparisons and single runs

A comparison is its single runs and nothing else.  The checks made before the runs refuse nothing
that some run would not refuse, and each run looks at the problem only, so a row depends neither on
the other methods nor on when their runs finish.
-/

namespace ScalarSolve

variable {F : Type}

/-! ## Lists without repetitions -/

section

variable {α β : Type} [DecidableEq α]

theorem eraseDups_append_singleton (as : List α) (b : α) :
    (as ++ [b]).eraseDups = as.eraseDups ++ if b ∈ as then [] else [b] := by
  rw [List.eraseDups_append]
  split
  · next mem => simp [List.removeAll, mem]
  · next new => simp [List.removeAll, new, List.eraseDups_cons]

/-- What is different stays different under an injection. -/
theorem eraseDups_map [DecidableEq β] {f : α → β} (injective : Function.Injective f)
    (as : List α) : (as.map f).eraseDups = as.eraseDups.map f := by
  induction as using List.reverseRecOn with
  | nil => rfl
  | append_singleton as b ih =>
      rw [List.map_append, List.map_singleton, eraseDups_append_singleton, ih,
        eraseDups_append_singleton, List.map_append]
      simp only [List.mem_map_of_injective injective]
      split <;> rfl

/-- What is left without repetitions stands in the order of its first occurrences. -/
theorem pairwise_eraseDups (as : List α) :
    as.eraseDups.Pairwise fun a b ↦ as.idxOf a < as.idxOf b := by
  induction as using List.reverseRecOn with
  | nil => exact .nil
  | append_singleton as b ih =>
      have kept {a : α} (mem : a ∈ as.eraseDups) : (as ++ [b]).idxOf a = as.idxOf a :=
        List.idxOf_append_of_mem (List.mem_eraseDups.mp mem)
      have earlier : as.eraseDups.Pairwise fun a a' ↦ (as ++ [b]).idxOf a < (as ++ [b]).idxOf a' :=
        ih.imp_of_mem fun mem mem' lt ↦ by rwa [kept mem, kept mem']
      rw [eraseDups_append_singleton]
      split
      · rwa [List.append_nil]
      · next new =>
          refine List.pairwise_append.mpr ⟨earlier, List.pairwise_singleton _ _, ?_⟩
          intro a mem _ last
          rw [List.mem_singleton.mp last, kept mem, List.idxOf_append_of_notMem new]
          exact Nat.lt_add_right _ (List.idxOf_lt_length_iff.mpr (List.mem_eraseDups.mp mem))

end

/-! ## Rows -/

namespace Problem

variable [Arith F] {p : Problem F} {methods : List Method}

/-- The row of a method, if it can be run. -/
def row? (p : Problem F) (m : Method) : Option (Row F) := (m.run p).toOption.map (Row.ofRun m)

theorem row?_eq_some {m : Method} {row : Row F} :
    p.row? m = some row ↔ ∃ r, m.run p = .ok r ∧ row = Row.ofRun m r := by
  unfold row?
  cases m.run p <;> simp [Except.toOption, eq_comm]

theorem method_of_row? {m : Method} {row : Row F} (h : p.row? m = some row) : row.method = m := by
  obtain ⟨r, -, rfl⟩ := row?_eq_some.mp h
  rfl

theorem row?_method {row : Row F} (mem : row ∈ methods.filterMap p.row?) :
    p.row? row.method = some row := by
  obtain ⟨m, -, ofMethod⟩ := List.mem_filterMap.mp mem
  rwa [method_of_row? ofMethod]

/-- Every method in the list can be run. -/
def Runs (p : Problem F) (methods : List Method) : Prop := ∀ m ∈ methods, ∃ r, m.run p = .ok r

theorem Runs.perm {methods' : List Method} (perm : methods.Perm methods') :
    p.Runs methods ↔ p.Runs methods' :=
  forall_congr' fun _ ↦ imp_congr_left perm.mem_iff

theorem runs_eraseDups : p.Runs methods.eraseDups ↔ p.Runs methods :=
  forall_congr' fun _ ↦ imp_congr_left List.mem_eraseDups

/-- Each method that can be run has its row. -/
theorem Runs.map_method (runs : p.Runs methods) :
    (methods.filterMap p.row?).map Row.method = methods := by
  have own : ∀ m ∈ methods, (p.row? m).map Row.method = some m := by
    intro m mem
    obtain ⟨r, ran⟩ := runs m mem
    rw [row?_eq_some.mpr ⟨r, ran, rfl⟩]
    rfl
  rw [List.map_filterMap, List.filterMap_congr own, List.filterMap_some]

/-- Runs made one after another give the rows of their methods, unless one of them is refused. -/
theorem runs_eq_ok {rows : List (Row F)} :
    methods.mapM (fun m ↦ (m.run p).map (Row.ofRun m)) = .ok rows ↔
      p.Runs methods ∧ rows = methods.filterMap p.row? := by
  have row (m : Method) : ((m.run p).map (Row.ofRun m)).toOption = p.row? m := by
    unfold row?
    cases m.run p <;> rfl
  have ran (m : Method) :
      (∃ row, (m.run p).map (Row.ofRun m) = .ok row) ↔ ∃ r, m.run p = .ok r := by
    cases m.run p <;> simp [Except.map]
  simp only [mapM_eq_ok, row, ran, Runs]

/-! ## Checks before the runs -/

/-- The checks of a comparison refuse nothing that its runs would not refuse. -/
theorem Runs.checks (runs : p.Runs methods) (some : methods ≠ []) :
    p.limits.validate = .ok () ∧ p.check methods = .ok () := by
  refine ⟨?_, ?_⟩
  · obtain ⟨m, mem⟩ := List.exists_mem_of_ne_nil methods some
    obtain ⟨r, ran⟩ := runs m mem
    obtain ⟨-, -, settings, -⟩ := Method.run_eq_ok.mp ran
    rw [Limits.validate_eq_guard, Check.guard_eq_ok]
    exact ⟨Limits.checks_hold.mpr (Method.valid_of_settings settings), rfl⟩
  · have complete : methods.find? (fun m ↦ (p.required? m).isNone) = none := by
      rw [List.find?_eq_none]
      intro m mem
      obtain ⟨r, ran⟩ := runs m mem
      obtain ⟨e, present, -⟩ := Method.run_eq_ok.mp ran
      simp [present]
    rw [check, complete]

/-- After its checks a comparison answers what its runs answer. -/
theorem checked_eq_ok {α : Type} {answer : Except (RangeError F) α} {a : α}
    (ran : answer = .ok a → p.Runs methods) :
    (if methods.eraseDups.isEmpty then .error .noMethods
      else do p.limits.validate; p.check methods.eraseDups; answer) = .ok a ↔
        methods ≠ [] ∧ answer = .ok a := by
  cases methods with
  | nil => simp
  | cons m ms =>
      have distinct : (m :: ms).eraseDups ≠ [] := by simp [List.eraseDups_cons]
      rw [if_neg (by simpa using distinct), check_bind_eq_ok, check_bind_eq_ok]
      refine ⟨fun ⟨_, _, ok⟩ ↦ ⟨List.cons_ne_nil m ms, ok⟩, ?_⟩
      rintro ⟨-, ok⟩
      obtain ⟨valid, complete⟩ := (runs_eraseDups.mpr (ran ok)).checks distinct
      exact ⟨valid, complete, ok⟩

/-! ## Comparisons -/

/-- A comparison is refused unless there are methods and each of them can be run, and then it is
their rows. -/
theorem compare_eq_ok {rows : List (Row F)} :
    p.compare methods = .ok rows ↔
      methods ≠ [] ∧ p.Runs methods ∧ rows = methods.eraseDups.filterMap p.row? := by
  unfold compare
  rw [checked_eq_ok fun ok ↦ runs_eraseDups.mp (runs_eq_ok.mp ok).1, runs_eq_ok, runs_eraseDups]

/-- The comparison if its runs are made at the same time and finish in a certain order.  The first
refusal to arrive is the answer, and otherwise every row takes the place of its method. -/
def compareFinishing (p : Problem F) (methods finished : List Method) :
    Except (RangeError F) (List (Row F)) := do
  let distinct := methods.eraseDups
  if distinct.isEmpty then .error .noMethods
  else
    p.limits.validate
    p.check distinct
    let rows ← finished.mapM fun m ↦ (m.run p).map (Row.ofRun m)
    return distinct.filterMap fun m ↦ rows.find? (·.method == m)

/-- The row of a method is found among the rows that have arrived. -/
theorem find?_row {finished : List Method} {m : Method} (mem : m ∈ finished) :
    (finished.filterMap p.row?).find? (·.method == m) = p.row? m := by
  rw [List.find?_filterMap]
  cases found : finished.find? fun a ↦ (p.row? a).any (·.method == m) with
  | some a =>
      obtain ⟨row, ofA, named⟩ : ∃ row, p.row? a = some row ∧ row.method = m := by
        simpa [Option.any_eq_true] using List.find?_some found
      obtain rfl : a = m := (method_of_row? ofA).symm.trans named
      rfl
  | none =>
      have none := List.find?_eq_none.mp found m mem
      cases row : p.row? m with
      | none => rfl
      | some row' => simp [row, method_of_row? row] at none

/-- It makes no difference in which order the runs finish. -/
theorem compareFinishing_eq_ok {finished : List Method} (perm : finished.Perm methods.eraseDups)
    {rows : List (Row F)} :
    p.compareFinishing methods finished = .ok rows ↔ p.compare methods = .ok rows := by
  have all : p.Runs finished ↔ p.Runs methods := (Runs.perm perm).trans runs_eraseDups
  have placed : (methods.eraseDups.filterMap fun m ↦
      (finished.filterMap p.row?).find? (·.method == m)) = methods.eraseDups.filterMap p.row? :=
    List.filterMap_congr fun m mem ↦ find?_row (perm.mem_iff.mpr mem)
  have answer : (do
      let rows ← finished.mapM fun m ↦ (m.run p).map (Row.ofRun m)
      return methods.eraseDups.filterMap fun m ↦ rows.find? (·.method == m)) = Except.ok rows ↔
        p.Runs methods ∧ rows = methods.eraseDups.filterMap p.row? := by
    cases arrived : finished.mapM fun m ↦ (m.run p).map (Row.ofRun m) with
    | error e =>
        have refused : ¬ p.Runs methods := fun runs ↦
          nomatch arrived.symm.trans (runs_eq_ok.mpr ⟨all.mpr runs, rfl⟩)
        simp [bind, Except.bind, refused]
    | ok rows' =>
        obtain ⟨runs, rfl⟩ := runs_eq_ok.mp arrived
        change Except.ok (methods.eraseDups.filterMap _) = _ ↔ _
        rw [placed, Except.ok.injEq, eq_comm]
        exact (and_iff_right (all.mp runs)).symm
  unfold compareFinishing
  rw [checked_eq_ok fun ok ↦ (answer.mp ok).1, answer, compare_eq_ok]

/-- A comparison gives rows if and only if there are methods and each of them can be run.  It has
one row for each distinct method, in the order in which they are first named, with what the method's
own run says.  The row of a method is the same in every other comparison of the problem that gives
rows, and the rows are the same in whatever order the runs finish. -/
theorem compare_single_runs (p : Problem F) (methods : List Method) :
    ((∃ rows, p.compare methods = .ok rows) ↔
      methods ≠ [] ∧ ∀ m ∈ methods, ∃ r, m.run p = .ok r) ∧
    (∀ rows, p.compare methods = .ok rows →
      (rows.map Row.method).Pairwise (fun m m' ↦ methods.idxOf m < methods.idxOf m') ∧
      (∀ m, m ∈ rows.map Row.method ↔ m ∈ methods) ∧
      ∀ row ∈ rows, ∃ r, row.method.run p = .ok r ∧ row.iterations = r.iterations ∧
        row.converged = r.converged ∧ row.root = r.root) ∧
    (∀ methods' rows rows', p.compare methods = .ok rows → p.compare methods' = .ok rows' →
      ∀ row ∈ rows, ∀ row' ∈ rows', row.method = row'.method → row = row') ∧
    ∀ finished rows, finished.Perm methods.eraseDups →
      (p.compareFinishing methods finished = .ok rows ↔ p.compare methods = .ok rows) := by
  refine ⟨?_, ?_, ?_, ?_⟩
  · simp only [compare_eq_ok, exists_and_left, exists_eq, and_true]
    exact Iff.rfl
  · intro rows ok
    obtain ⟨-, runs, rfl⟩ := compare_eq_ok.mp ok
    rw [(runs_eraseDups.mpr runs).map_method]
    refine ⟨pairwise_eraseDups methods, fun m ↦ List.mem_eraseDups, fun row mem ↦ ?_⟩
    obtain ⟨r, ran, eq⟩ := row?_eq_some.mp (row?_method mem)
    rw [eq]
    exact ⟨r, ran, rfl, rfl, rfl⟩
  · intro methods' rows rows' ok ok' row mem row' mem' same
    obtain ⟨-, -, rfl⟩ := compare_eq_ok.mp ok
    obtain ⟨-, -, rfl⟩ := compare_eq_ok.mp ok'
    exact Option.some.inj ((row?_method mem).symm.trans (same ▸ row?_method mem'))
  · exact fun finished rows perm ↦ compareFinishing_eq_ok perm

end Problem

end ScalarSolve
