import FragmentArchive.Run

/-!
# Schedules

Jobs are handed to a pool of workers and waited for together. In which order the workers start and
finish them is not up to the program, so it is an argument here: a *schedule* is any sequence in
which every job starts once and finishes once, not before it started.

A worker looks at a shared flag before it starts a job, and leaves the job out when the flag is
set; a job that fails sets the flag when it finishes. Jobs that are already running are left to
finish.

The results are put together in the order of the jobs, and of several errors the one of the first
job counts; both are independent of the schedule as far as the results themselves are.

## What schedules leave out

What a job does takes effect at its start, as a whole. This is a simplification. It is exact for a
single worker, and more generally for *serial* schedules, where a job is finished before the next
one starts. With several workers it is exact for a writer that carries out one request at a time,
except that an artifact can be announced after the next one was stored. An archive in a directory is
no such writer. Its workers write files at the same time, and when two of these have one temporary
file, one can be given the bytes of the other, or find the temporary file gone. Schedules do not
show this.
-/

namespace FragmentArchive

/-- A moment in the life of a job, given by its place among the jobs. -/
inductive Step
  | start (job : Nat)
  | finish (job : Nat)
deriving DecidableEq, Repr

namespace Schedule

/-- Whether a sequence of steps starts every waiting job and finishes those and the running ones. -/
def isComplete : List Nat → List Nat → List Step → Bool
  | waiting, running, [] => waiting.isEmpty && running.isEmpty
  | waiting, running, .start i :: steps =>
    waiting.contains i && isComplete (waiting.erase i) (i :: running) steps
  | waiting, running, .finish i :: steps =>
    running.contains i && isComplete waiting (running.erase i) steps

end Schedule

/-- A complete sequence of steps for a number of jobs. -/
structure Schedule (jobs : Nat) where
  steps : List Step
  complete : Schedule.isComplete (List.range jobs) [] steps = true

namespace Schedule

/-- An order in which a number of jobs get their turns. -/
structure Turns (jobs : Nat) where
  order : List Nat
  perm : order.Perm (List.range jobs)

/-- The jobs get their turns as they come. -/
def Turns.inOrder (jobs : Nat) : Turns jobs := ⟨List.range jobs, .refl _⟩

/-- Each job of a list is finished before the next one starts. -/
private def oneByOne (jobs : List Nat) : List Step := jobs.flatMap fun i ↦ [.start i, .finish i]

private theorem isComplete_oneByOne {waiting jobs : List Nat} (h : jobs.Perm waiting) :
    isComplete waiting [] (oneByOne jobs) = true := by
  induction jobs generalizing waiting with
  | nil =>
    obtain rfl := h.nil_eq
    rfl
  | cons i rest ih =>
    have hi : i ∈ waiting := h.subset List.mem_cons_self
    have hrest : rest.Perm (waiting.erase i) := by
      simpa using h.erase i
    simpa [oneByOne, isComplete, hi] using ih hrest

/-- The schedule by which the jobs get their turns one after the other. -/
def serial {jobs : Nat} (turns : Turns jobs) : Schedule jobs :=
  ⟨oneByOne turns.order, isComplete_oneByOne turns.perm⟩

/-- The schedule of a single worker, who takes the jobs in order. -/
def inOrder (jobs : Nat) : Schedule jobs := serial (.inOrder jobs)

/-! ## Execution -/

/-- The flag, and the results of the jobs that were started. -/
structure Progress (β : Type) where
  failed : Bool
  results : List (Nat × Except Error β)

variable {σ α β : Type}

/-- Takes one step of a schedule. -/
def advance (task : α → Run σ β) (jobs : List α) (progress : Progress β) :
    Step → Run σ (Progress β)
  | .start i =>
    match jobs[i]? with
    | none => return progress
    | some job =>
      if progress.failed then return progress
      else do
        let result ← (task job).attempt
        return { progress with results := (i, result) :: progress.results }
  | .finish i =>
    match progress.results.lookup i with
    | some (.error _) => return { progress with failed := true }
    | _ => return progress

/-- Puts the results of all jobs together; `none` stands for a job that was left out. -/
def collect (results : List (Option (Except Error β))) : Except Error (List β) :=
  match results.findSome? fun r ↦ r.bind fun | .error e => some e | .ok _ => none with
  | some e => .error e
  | none =>
    let skipped := (results.filter Option.isNone).length
    if 0 < skipped then .error (.internal (.skipped skipped))
    else .ok (results.filterMap fun r ↦ r.bind Except.toOption)

/-- Does a task for every job and waits for all of them. -/
def runAll (jobs : List α) (schedule : Schedule jobs.length) (task : α → Run σ β) :
    Run σ (List β) := do
  let progress ← schedule.steps.foldlM (advance task jobs) ⟨false, []⟩
  Run.ofExcept (collect ((List.range jobs.length).map fun i ↦ progress.results.lookup i))

end Schedule

end FragmentArchive
