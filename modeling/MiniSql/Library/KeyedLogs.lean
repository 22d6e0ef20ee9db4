import Mathlib.Data.List.Infix
import Mathlib.Logic.Function.Basic

/-!
# Services on keyed logs

A service keeps a log of records under every key.  An input is about one key: it is answered from the log
under that key and may add records to its end.

* `Service`: the key of an input, its answer and what it adds.
* `step`, `run` and `transcript`: one input, the logs after a list of inputs, and the inputs with their
  answers; `upTo` is the inputs up to the first answer of some kind.

What holds of every service:

* `run_prefix`: a log only grows.
* `transcript_filter_key`, `run_key`: the inputs about one key get the answers, and make the log, that they
  would get and make alone; so what happens under one key is not seen under another.
* `transcript_filter_adding`, `run_filter_adding`: inputs that add nothing can be left out.
* `transcript_append`, `run_append`, `upTo_cases`: runs one behind the other.
-/

namespace KeyedLogs

/-- How an input is answered from the log under its key, and what it adds to this log. -/
structure Service (κ ρ ι ω : Type*) where
  key : ι → κ
  answer : ι → List ρ → ω
  added : ι → List ρ → List ρ

variable {κ ρ ι ω : Type*} [DecidableEq κ] (S : Service κ ρ ι ω)

namespace Service

def step (i : ι) (logs : κ → List ρ) : κ → List ρ :=
  Function.update logs (S.key i) (logs (S.key i) ++ S.added i (logs (S.key i)))

def run : List ι → (κ → List ρ) → κ → List ρ
  | [], logs => logs
  | i :: inputs, logs => run inputs (S.step i logs)

/-- The inputs of a run with their answers. -/
def transcript : List ι → (κ → List ρ) → List (ι × ω)
  | [], _ => []
  | i :: inputs, logs => (i, S.answer i (logs (S.key i))) :: transcript inputs (S.step i logs)

/-- The inputs up to the first one whose answer stops the run. -/
def upTo (stop : ω → Bool) : List ι → (κ → List ρ) → List ι
  | [], _ => []
  | i :: inputs, logs =>
      if stop (S.answer i (logs (S.key i))) then [i] else i :: upTo stop inputs (S.step i logs)

/-! ### Runs -/

variable {S}

theorem run_append (inputs later : List ι) (logs : κ → List ρ) :
    S.run (inputs ++ later) logs = S.run later (S.run inputs logs) := by
  induction inputs generalizing logs with
  | nil => rfl
  | cons i inputs ih => exact ih (S.step i logs)

theorem transcript_append (inputs later : List ι) (logs : κ → List ρ) :
    S.transcript (inputs ++ later) logs =
      S.transcript inputs logs ++ S.transcript later (S.run inputs logs) := by
  induction inputs generalizing logs with
  | nil => rfl
  | cons i inputs ih => exact congrArg (List.cons _) (ih (S.step i logs))

/-! ### Runs that stop -/

/-- Either no answer stops the run, or the run ends with the first that does, whatever comes later. -/
theorem upTo_cases (stop : ω → Bool) (inputs : List ι) (logs : κ → List ρ) :
    ((∀ e ∈ S.transcript inputs logs, stop e.2 = false) ∧
        ∀ later, S.upTo stop (inputs ++ later) logs = inputs ++ S.upTo stop later (S.run inputs logs)) ∨
      (∃ e ∈ (S.transcript (S.upTo stop inputs logs) logs).getLast?, stop e.2 = true) ∧
        ∀ later, S.upTo stop (inputs ++ later) logs = S.upTo stop inputs logs := by
  induction inputs generalizing logs with
  | nil => exact Or.inl ⟨fun e he => absurd he List.not_mem_nil, fun _ => rfl⟩
  | cons i inputs ih =>
    simp only [List.cons_append, upTo]
    cases hstop : stop (S.answer i (logs (S.key i))) with
    | true => exact Or.inr ⟨⟨(i, S.answer i (logs (S.key i))), rfl, hstop⟩, fun _ => rfl⟩
    | false =>
      rcases ih (S.step i logs) with ⟨hnone, hlater⟩ | ⟨⟨e, he, hlast⟩, hlater⟩
      · refine Or.inl ⟨List.forall_mem_cons.mpr ⟨hstop, hnone⟩, fun later => ?_⟩
        rw [hlater]
        rfl
      · refine Or.inr ⟨⟨e, ?_, hlast⟩, fun later => ?_⟩
        · rw [if_neg (by decide), transcript, List.getLast?_cons, Option.mem_def.mp he]
          rfl
        · rw [hlater]

/-! ### One step -/

@[simp] theorem step_self (i : ι) (logs : κ → List ρ) :
    S.step i logs (S.key i) = logs (S.key i) ++ S.added i (logs (S.key i)) :=
  Function.update_self ..

theorem step_of_ne {i : ι} {k : κ} (h : S.key i ≠ k) (logs : κ → List ρ) :
    S.step i logs k = logs k := Function.update_of_ne (Ne.symm h) ..

theorem step_of_added_nil {i : ι} {logs : κ → List ρ} (h : S.added i (logs (S.key i)) = []) :
    S.step i logs = logs := by
  rw [step, h, List.append_nil, Function.update_eq_self]

/-- A log only grows. -/
theorem step_extends (i : ι) (logs : κ → List ρ) (k : κ) : logs k <+: S.step i logs k := by
  by_cases h : S.key i = k
  · subst h
    rw [step_self]
    exact List.prefix_append _ _
  · rw [step_of_ne h]

theorem run_prefix (inputs : List ι) (logs : κ → List ρ) (k : κ) : logs k <+: S.run inputs logs k := by
  induction inputs generalizing logs with
  | nil => exact List.prefix_rfl
  | cons i inputs ih => exact (step_extends i logs k).trans (ih (S.step i logs))

/-! ### One key -/

/-- The steps under one key depend on the log under this key alone. -/
theorem step_congr {k : κ} {logs logs' : κ → List ρ} (h : logs k = logs' k) (i : ι) :
    S.step i logs k = S.step i logs' k := by
  by_cases hkey : S.key i = k
  · subst hkey
    rw [step_self, step_self, h]
  · rw [step_of_ne hkey, step_of_ne hkey, h]

/-- A run and its inputs under one key leave the same log there. -/
theorem run_key {k : κ} {logs logs' : κ → List ρ} (h : logs k = logs' k) (inputs : List ι) :
    S.run inputs logs k = S.run (inputs.filter fun i => decide (S.key i = k)) logs' k := by
  induction inputs generalizing logs logs' with
  | nil => exact h
  | cons i inputs ih =>
    rw [List.filter_cons]
    by_cases hkey : S.key i = k
    · rw [if_pos (decide_eq_true hkey)]
      exact ih (step_congr h i)
    · rw [if_neg (by rw [decide_eq_true_eq]; exact hkey)]
      exact ih ((step_of_ne hkey logs).trans h)

/-- **One key at a time.**  The answers under one key are those of the run of the inputs under it. -/
theorem transcript_filter_key {k : κ} {logs logs' : κ → List ρ} (h : logs k = logs' k)
    (inputs : List ι) :
    (S.transcript inputs logs).filter (fun e => decide (S.key e.1 = k)) =
      S.transcript (inputs.filter fun i => decide (S.key i = k)) logs' := by
  induction inputs generalizing logs logs' with
  | nil => rfl
  | cons i inputs ih =>
    rw [List.filter_cons, transcript, List.filter_cons]
    by_cases hkey : S.key i = k
    · rw [if_pos (decide_eq_true hkey), if_pos (decide_eq_true hkey), transcript,
        ih (step_congr h i), hkey, h]
    · rw [if_neg (by rw [decide_eq_true_eq]; exact hkey),
        if_neg (by rw [decide_eq_true_eq]; exact hkey)]
      exact ih ((step_of_ne hkey logs).trans h)

/-- Two runs with the same inputs under one key leave the same log there. -/
theorem run_congr_key {k : κ} {inputs inputs' : List ι} (logs : κ → List ρ)
    (h : (inputs.filter fun i => decide (S.key i = k)) =
      inputs'.filter fun i => decide (S.key i = k)) :
    S.run inputs logs k = S.run inputs' logs k := by
  rw [run_key rfl inputs, run_key rfl inputs', h]

/-- Two runs with the same inputs under one key answer them alike. -/
theorem transcript_congr_key {k : κ} {inputs inputs' : List ι} (logs : κ → List ρ)
    (h : (inputs.filter fun i => decide (S.key i = k)) =
      inputs'.filter fun i => decide (S.key i = k)) :
    (S.transcript inputs logs).filter (fun e => decide (S.key e.1 = k)) =
      (S.transcript inputs' logs).filter fun e => decide (S.key e.1 = k) := by
  rw [transcript_filter_key rfl inputs, transcript_filter_key rfl inputs', h]

/-! ### Inputs that add nothing -/

section Reads

variable {p : ι → Bool} (hreads : ∀ i, p i = false → ∀ log, S.added i log = [])
include hreads

theorem step_of_reads {i : ι} (h : p i = false) (logs : κ → List ρ) : S.step i logs = logs :=
  step_of_added_nil (hreads i h _)

/-- Inputs that add nothing leave no trace in the logs. -/
theorem run_filter_adding (inputs : List ι) (logs : κ → List ρ) :
    S.run (inputs.filter p) logs = S.run inputs logs := by
  induction inputs generalizing logs with
  | nil => rfl
  | cons i inputs ih =>
    rw [List.filter_cons]
    cases h : p i with
    | true => exact ih (S.step i logs)
    | false =>
      rw [if_neg (by decide), run, step_of_reads hreads h]
      exact ih logs

/-- Inputs that add nothing leave no trace in the other answers. -/
theorem transcript_filter_adding (inputs : List ι) (logs : κ → List ρ) :
    (S.transcript inputs logs).filter (fun e => p e.1) = S.transcript (inputs.filter p) logs := by
  induction inputs generalizing logs with
  | nil => rfl
  | cons i inputs ih =>
    rw [transcript, List.filter_cons, List.filter_cons]
    dsimp only
    cases h : p i with
    | true => exact congrArg (List.cons _) (ih (S.step i logs))
    | false =>
      rw [if_neg (by decide), if_neg (by decide), step_of_reads hreads h]
      exact ih logs

end Reads

end Service

end KeyedLogs
