import FragmentArchive.Proofs.Lists
import FragmentArchive.Proofs.Run
import FragmentArchive.Schedule

/-!
# What a schedule makes of its jobs

The steps of a schedule are folded over a flag and a list of results. What has happened in the end
is told without steps: some of the jobs were *performed*, one after the other, each from the memory
that the one before it left behind. They are the jobs that the schedule starts, up to the moment at
which the flag is set.

## The flag

The flag summarizes the results, but it lags behind: a job that fails sets it only when it
finishes, and other jobs may start in between. So the invariant of the fold speaks about the jobs
that are still running: every failure is either flagged or belongs to one of them. When nothing is
running any more, the flag is set exactly if some job failed.
-/

namespace FragmentArchive.Schedule

variable {σ α β : Type} {task : α → Run σ β} {jobs : List α}

/-! ## Starts -/

/-- The jobs that a sequence of steps starts, in the order of starting. -/
def starts (steps : List Step) : List Nat :=
  steps.filterMap fun
    | .start i => some i
    | .finish _ => none

theorem starts_start (i : Nat) (steps : List Step) :
    starts (.start i :: steps) = i :: starts steps := rfl

theorem starts_finish (i : Nat) (steps : List Step) :
    starts (.finish i :: steps) = starts steps := rfl

/-- A complete sequence of steps starts what is waiting, and nothing twice. -/
theorem starts_perm {waiting running : List Nat} {steps : List Step}
    (h : isComplete waiting running steps = true) : (starts steps).Perm waiting := by
  induction steps generalizing waiting running with
  | nil =>
    rw [isComplete, Bool.and_eq_true, List.isEmpty_iff] at h
    rw [h.1]
    exact .refl _
  | cons step steps ih =>
    cases step with
    | start i =>
      rw [isComplete, Bool.and_eq_true, List.contains_iff_mem] at h
      exact ((ih h.2).cons i).trans (List.perm_cons_erase h.1).symm
    | finish i =>
      rw [isComplete, Bool.and_eq_true] at h
      exact ih h.2

/-- The jobs of a list in the order in which a schedule starts them. -/
def order {n : Nat} (schedule : Schedule n) (jobs : List α) : List α :=
  (starts schedule.steps).filterMap (jobs[·]?)

private theorem filterMap_getElem?_range (jobs : List α) :
    (List.range jobs.length).filterMap (jobs[·]?) = jobs := by
  induction jobs with
  | nil => rfl
  | cons job jobs ih =>
    rw [List.length_cons, List.range_succ_eq_map, List.filterMap_cons, List.filterMap_map]
    simpa [Function.comp_def] using ih

/-- A schedule starts every job once. -/
theorem order_perm (jobs : List α) (schedule : Schedule jobs.length) :
    (schedule.order jobs).Perm jobs := by
  have h := (starts_perm schedule.complete).filterMap (jobs[·]?)
  rwa [filterMap_getElem?_range] at h

theorem order_perm_of_length {n : Nat} {jobs : List α} (h : jobs.length = n)
    (schedule : Schedule n) : (schedule.order jobs).Perm jobs := by
  subst h
  exact order_perm jobs schedule

theorem starts_oneByOne (jobs : List Nat) :
    starts (jobs.flatMap fun i ↦ [.start i, .finish i]) = jobs := by
  induction jobs with
  | nil => rfl
  | cons i jobs ih =>
    rw [List.flatMap_cons, List.cons_append, List.cons_append, List.nil_append, starts_start,
      starts_finish, ih]

/-- A single worker takes the jobs as they come. -/
theorem order_inOrder (jobs : List α) : (inOrder jobs.length).order jobs = jobs := by
  have h : starts (inOrder jobs.length).steps = List.range jobs.length := starts_oneByOne _
  rw [order, h, filterMap_getElem?_range]

theorem order_map {n : Nat} (schedule : Schedule n) (f : α → β) (jobs : List α) :
    schedule.order (jobs.map f) = (schedule.order jobs).map f := by
  simp only [order, List.getElem?_map, List.map_filterMap]

/-! ## Performing jobs -/

/-- The jobs that were performed, by their places, each with its outcome. -/
abbrev Log (σ β : Type) : Type := List (Nat × Outcome σ β)

namespace Log

/-- The jobs in the order in which they were performed. -/
def order (log : Log σ β) : List Nat := log.map (·.1)

/-- What happened while the jobs were performed. -/
def events (log : Log σ β) : List Event := log.flatMap (·.2.events)

/-- The results of the jobs. -/
def results (log : Log σ β) : List (Nat × Except Error β) := log.map fun e ↦ (e.1, e.2.result)

/-- After these steps the flag is set: a job that failed has finished. -/
def Flags (log : Log σ β) (steps : List Step) : Prop :=
  ∃ e ∈ log, .finish e.1 ∈ steps ∧ ∃ error, e.2.result = .error error

end Log

/-- Jobs are performed one after the other, each from the memory that the one before it left
behind. -/
inductive Performed (task : α → Run σ β) (jobs : List α) : σ → Log σ β → σ → Prop
  | nil (s : σ) : Performed task jobs s [] s
  | cons {i : Nat} {job : α} {s t : σ} {log : Log σ β} (hjob : jobs[i]? = some job)
      (hlog : Performed task jobs (task job s).memory log t) :
      Performed task jobs s ((i, task job s) :: log) t

/-- What is logged is the outcome of a job. -/
theorem Performed.outcome {s t : σ} {log : Log σ β} (h : Performed task jobs s log t)
    {e : Nat × Outcome σ β} (he : e ∈ log) : ∃ job s, jobs[e.1]? = some job ∧ e.2 = task job s := by
  induction h with
  | nil s => cases he
  | cons hjob _ ih =>
    rcases List.mem_cons.mp he with rfl | he
    · exact ⟨_, _, hjob, rfl⟩
    · exact ih he

/-! ## The invariant -/

/-- The flag is set only for a failure, and a failure that is not flagged is one of a job that is
still running. -/
private structure Flagged (running : List Nat) (progress : Progress β) : Prop where
  cause : progress.failed = true → ∃ i e, (i, .error e) ∈ progress.results
  seen : ∀ i e, (i, .error e) ∈ progress.results → progress.failed = true ∨ i ∈ running

private theorem Flagged.start {running : List Nat} {progress : Progress β}
    (h : Flagged running progress) (i : Nat) (r : Except Error β) :
    Flagged (i :: running) { progress with results := (i, r) :: progress.results } where
  cause hfailed := by
    obtain ⟨j, e, hj⟩ := h.cause hfailed
    exact ⟨j, e, List.mem_cons_of_mem _ hj⟩
  seen j e hj := by
    rcases List.mem_cons.mp hj with heq | hj
    · exact .inr (by rw [(Prod.mk.inj heq).1]; exact List.mem_cons_self)
    · exact (h.seen j e hj).imp_right (List.mem_cons_of_mem _)

/-- A job that finishes leaves the flag as it is, or sets it if the job failed. -/
private theorem Flagged.finish {running : List Nat} {progress : Progress β} {i : Nat}
    {failed : Bool} (h : Flagged running progress)
    (hfailed : failed = true ↔ progress.failed = true ∨ ∃ e, (i, .error e) ∈ progress.results) :
    Flagged (running.erase i) { progress with failed } where
  cause hset := by
    rcases hfailed.mp hset with hset | ⟨e, he⟩
    · exact h.cause hset
    · exact ⟨i, e, he⟩
  seen j e hj := by
    rcases h.seen j e hj with hset | hrunning
    · exact .inl (hfailed.mpr (.inl hset))
    · by_cases hji : j = i
      · subst hji
        exact .inl (hfailed.mpr (.inr ⟨e, hj⟩))
      · exact .inr ((List.mem_erase_of_ne hji).mpr hrunning)

/-! ## The fold -/

private theorem advance_of_failed {progress : Progress β} (hfailed : progress.failed = true)
    (step : Step) : advance task jobs progress step = pure progress := by
  cases step with
  | start i =>
    rw [advance]
    split
    · rfl
    · rw [if_pos hfailed]
  | finish i =>
    rw [advance]
    split
    · rw [← hfailed]
    · rfl

/-- Once the flag is set, nothing starts any more. -/
private theorem foldlM_advance_of_failed {progress : Progress β} (s : σ)
    (hfailed : progress.failed = true) (steps : List Step) :
    steps.foldlM (advance task jobs) progress s = ⟨.ok progress, s, []⟩ := by
  induction steps with
  | nil => rfl
  | cons step steps ih =>
    rw [List.foldlM_cons, advance_of_failed hfailed, Run.bind_of_ok (Run.pure_apply progress s), ih]
    rfl

private theorem advance_start {i : Nat} {job : α} {progress : Progress β} (s : σ)
    (hjob : jobs[i]? = some job) (hfailed : progress.failed = false) :
    advance task jobs progress (.start i) s =
      ⟨.ok { progress with results := (i, (task job s).result) :: progress.results },
        (task job s).memory, (task job s).events⟩ := by
  have h : (task job).attempt s =
    ⟨.ok (task job s).result, (task job s).memory, (task job s).events⟩ := rfl
  simp only [advance, hjob, hfailed, Bool.false_eq_true, if_false]
  rw [Run.bind_of_ok h, Run.pure_apply, List.append_nil]

variable (task jobs) in
/-- The end of a job sets the flag if the job failed, and does nothing otherwise. -/
private theorem advance_finish (i : Nat) (progress : Progress β)
    (hkeys : (progress.results.map (·.1)).Nodup) :
    ∃ failed, advance task jobs progress (.finish i) = pure { progress with failed } ∧
      (failed = true ↔ progress.failed = true ∨ ∃ e, (i, .error e) ∈ progress.results) := by
  rw [advance]
  split
  · next e hlookup =>
    exact ⟨true, rfl, fun _ ↦ .inr ⟨e, mem_of_lookup_eq_some hlookup⟩, fun _ ↦ rfl⟩
  · next hlookup =>
    refine ⟨progress.failed, rfl, .inl, fun h ↦ h.resolve_right ?_⟩
    rintro ⟨e, he⟩
    exact hlookup e (lookup_eq_some_of_mem hkeys he)

/-! ## The moments of the starts -/

/-- The jobs in the log are those that find no failure when they are started, neither one that was
known from the beginning nor one that has become known by the end of a job. -/
private def HeedsFlag (failed : Bool) (results : List (Nat × Except Error β)) (order : List Nat)
    (steps : List Step) : Prop :=
  ∀ before j after, steps = before ++ .start j :: after →
    (j ∈ order ↔ failed = false ∧ ∀ i e, (i, .error e) ∈ results → .finish i ∉ before)

private theorem HeedsFlag.start {results : List (Nat × Except Error β)} {order : List Nat}
    {steps : List Step} (h : HeedsFlag false results order steps) {i : Nat}
    (hi : i ∉ starts steps) : HeedsFlag false results (i :: order) (.start i :: steps) := by
  intro before j after hsteps
  rcases List.cons_eq_append_iff.mp hsteps with ⟨rfl, hstep⟩ | ⟨before, rfl, rfl⟩
  · obtain rfl := Step.start.inj (List.cons.inj hstep).1
    exact ⟨fun _ ↦ ⟨rfl, fun _ _ _ ↦ List.not_mem_nil⟩, fun _ ↦ List.mem_cons_self⟩
  · -- another job is started here than later on
    have hne : j ≠ i := by
      rintro rfl
      exact hi (List.mem_filterMap.mpr ⟨.start j, by simp, rfl⟩)
    rw [List.mem_cons, or_iff_right hne, h before j after rfl]
    simp only [List.mem_cons, reduceCtorEq, false_or]

/-- The end of a job matters to those that are started behind it. -/
private theorem HeedsFlag.finish {results : List (Nat × Except Error β)} {order : List Nat}
    {steps : List Step} {failed : Bool} (h : HeedsFlag failed results order steps) {i : Nat}
    (hfailed : failed = true ↔ ∃ e, (i, .error e) ∈ results) :
    HeedsFlag false results order (.finish i :: steps) := by
  intro before j after hsteps
  rcases List.cons_eq_append_iff.mp hsteps with ⟨rfl, hstep⟩ | ⟨before, rfl, rfl⟩
  · cases (List.cons.inj hstep).1
  · rw [h before j after rfl, ← Bool.not_eq_true, hfailed, and_iff_right rfl]
    constructor
    · rintro ⟨hnone, hbefore⟩ i' e he hfinish
      rcases List.mem_cons.mp hfinish with heq | hfinish
      · obtain rfl := Step.finish.inj heq
        exact hnone ⟨e, he⟩
      · exact hbefore i' e he hfinish
    · intro hnone
      exact ⟨fun ⟨e, he⟩ ↦ hnone i e he List.mem_cons_self,
        fun i' e he hfinish ↦ hnone i' e he (List.mem_cons_of_mem _ hfinish)⟩

/-! ## All steps -/

/-- The steps that are left finish what was begun: they start what is waiting and finish what is
running, and what has a result is not started again. -/
private structure Pending (jobs : List α) (waiting running : List Nat) (steps : List Step)
    (progress : Progress β) : Prop where
  complete : isComplete waiting running steps = true
  lt : ∀ i ∈ waiting, i < jobs.length
  apart : ∀ i ∈ running, i ∉ waiting
  keys : (progress.results.map (·.1) ++ starts steps).Nodup
  flagged : Flagged running progress

section

variable {waiting running : List Nat} {steps : List Step} {progress : Progress β} {i : Nat}

/-- A job that starts is one of those that are waiting, and it starts once. -/
private theorem Pending.start (h : Pending jobs waiting running (.start i :: steps) progress) :
    (∃ job, jobs[i]? = some job) ∧ i ∉ starts steps ∧ ∀ r : Except Error β,
      Pending jobs (waiting.erase i) (i :: running) steps
        { progress with results := (i, r) :: progress.results } := by
  have hstarts := starts_perm h.complete
  have hnodup : (i :: starts steps).Nodup := (List.nodup_append.mp h.keys).2.1
  have hcomplete := h.complete
  rw [isComplete, Bool.and_eq_true, List.contains_iff_mem] at hcomplete
  obtain ⟨hi, hcomplete⟩ := hcomplete
  refine ⟨⟨_, List.getElem?_eq_getElem (h.lt i hi)⟩, (List.nodup_cons.mp hnodup).1, fun r ↦
    ⟨hcomplete, fun j hj ↦ h.lt j (List.mem_of_mem_erase hj), fun j hj hj' ↦ ?_,
      List.perm_middle.nodup_iff.mp h.keys, h.flagged.start i r⟩⟩
  rcases List.mem_cons.mp hj with rfl | hj
  · exact (hstarts.nodup_iff.mp hnodup).not_mem_erase hj'
  · exact h.apart j hj (List.mem_of_mem_erase hj')

/-- A job that finishes is running, so it does not start any more. -/
private theorem Pending.finish (h : Pending jobs waiting running (.finish i :: steps) progress)
    {failed : Bool}
    (hfailed : failed = true ↔ progress.failed = true ∨ ∃ e, (i, .error e) ∈ progress.results) :
    i ∉ starts steps ∧
      Pending jobs waiting (running.erase i) steps { progress with failed } := by
  have hcomplete := h.complete
  rw [isComplete, Bool.and_eq_true, List.contains_iff_mem] at hcomplete
  obtain ⟨hi, hcomplete⟩ := hcomplete
  refine ⟨fun hstarts ↦ h.apart i hi ((starts_perm hcomplete).mem_iff.mp hstarts), hcomplete, h.lt,
    fun j hj ↦ h.apart j (List.mem_of_mem_erase hj), h.keys, h.flagged.finish hfailed⟩

end

/-- **What a sequence of steps comes to.** The jobs that are performed are those started, up to a
point; and unless the flag is set in the end, they are all. A job is performed exactly if no failure
is known when it is started, neither from the beginning nor by the end of a job. -/
private theorem foldlM_advance {waiting running : List Nat} {steps : List Step}
    {progress : Progress β} (s : σ) (hpending : Pending jobs waiting running steps progress) :
    ∃ log progress' t,
      steps.foldlM (advance task jobs) progress s = ⟨.ok progress', t, Log.events log⟩ ∧
        Performed task jobs s log t ∧
        progress'.results = (Log.results log).reverse ++ progress.results ∧
        Log.order log <+: starts steps ∧
        (progress'.failed = false → Log.order log = starts steps) ∧
        Flagged [] progress' ∧
        HeedsFlag progress.failed progress'.results (Log.order log) steps := by
  induction steps generalizing waiting running progress s with
  | nil =>
    have hrunning := hpending.complete
    rw [isComplete, Bool.and_eq_true, List.isEmpty_iff, List.isEmpty_iff] at hrunning
    obtain ⟨-, rfl⟩ := hrunning
    refine ⟨[], progress, s, rfl, .nil s, rfl, List.prefix_refl _, fun _ ↦ rfl, hpending.flagged,
      fun before j after hsteps ↦ ?_⟩
    cases List.append_ne_nil_of_right_ne_nil before (List.cons_ne_nil _ after) hsteps.symm
  | cons step steps ih =>
    cases hfailed : progress.failed with
    | true =>
      -- nothing starts any more, and nothing is a part of everything
      refine ⟨[], progress, s, foldlM_advance_of_failed s hfailed _, .nil s, rfl,
        List.nil_prefix, fun h ↦ ?_, ⟨hpending.flagged.cause, fun _ _ _ ↦ .inl hfailed⟩,
        fun before j after _ ↦ iff_of_false List.not_mem_nil fun h ↦ Bool.noConfusion h.1⟩
      rw [hfailed] at h
      cases h
    | false =>
      rw [List.foldlM_cons]
      cases step with
      | start i =>
        obtain ⟨⟨job, hjob⟩, hi, hpending'⟩ := hpending.start
        obtain ⟨log, progress', t, hfold, hperf, hresults, hinitial, hall, hflag, hheeds⟩ :=
          ih (task job s).memory (hpending' (task job s).result)
        refine ⟨(i, task job s) :: log, progress', t, ?_, .cons hjob hperf, ?_, ?_, ?_, hflag, ?_⟩
        · rw [Run.bind_of_ok (advance_start s hjob hfailed), hfold]
          rfl
        · rw [hresults, Log.results, Log.results, List.map_cons, List.reverse_cons,
            List.append_assoc, List.singleton_append]
        · exact List.cons_prefix_cons.mpr ⟨rfl, hinitial⟩
        · intro h
          rw [starts_start, ← hall h]
          rfl
        · rw [hfailed] at hheeds
          exact hheeds.start hi
      | finish i =>
        -- the end of a job performs nothing, it can only set the flag
        obtain ⟨failed, hadv, hset⟩ :=
          advance_finish task jobs i progress (List.nodup_append.mp hpending.keys).1
        obtain ⟨hi, hpending'⟩ := hpending.finish hset
        rw [hadv, Run.bind_of_ok (Run.pure_apply _ s)]
        obtain ⟨log, progress', t, hfold, hperf, hresults, hinitial, hall, hflag, hheeds⟩ :=
          ih s hpending'
        refine ⟨log, progress', t, by rw [hfold]; rfl, hperf, hresults, hinitial, hall, hflag,
          hheeds.finish ?_⟩
        -- the job is not started again, so what it came to is known by now
        have hknown : ∀ e,
            (i, .error e) ∈ progress'.results ↔ (i, .error e) ∈ progress.results := by
          intro e
          rw [hresults, List.mem_append, List.mem_reverse]
          refine or_iff_right fun he ↦ hi (hinitial.mem ?_)
          obtain ⟨entry, hentry, heq⟩ := List.mem_map.mp he
          obtain ⟨rfl, -⟩ := Prod.mk.inj heq
          exact List.mem_map_of_mem hentry
        dsimp only
        rw [hset, hfailed, or_iff_right Bool.false_ne_true]
        exact exists_congr fun e ↦ (hknown e).symm

/-! ## Putting the results together -/

/-- The failure of a job that was not left out. -/
private def failure? : Option (Except Error β) → Option Error
  | some (.error e) => some e
  | _ => none

private theorem collect_eq (rs : List (Option (Except Error β))) :
    collect rs = (rs.findSome? failure?).elim
      (if 0 < (rs.filter Option.isNone).length then
          .error (.internal (.skipped (rs.filter Option.isNone).length))
        else .ok (rs.filterMap fun r ↦ r.bind Except.toOption)) .error := by
  have h : ∀ g : Option (Except Error β) → Option Error, (∀ r, g r = failure? r) →
      rs.findSome? g = rs.findSome? failure? := by
    intro g hg
    rw [funext hg]
  rw [collect, h _ fun r ↦ by rcases r with _ | ⟨_ | _⟩ <;> rfl]
  cases rs.findSome? failure? <;> rfl

/-- When every job succeeded, their values are put together. -/
private theorem collect_ok (vs : List β) : collect (vs.map fun v ↦ some (.ok v)) = .ok vs := by
  have hnone : (vs.map fun v ↦ some (.ok v : Except Error β)).findSome? failure? = none := by
    rw [List.findSome?_map, List.findSome?_eq_none_iff]
    intro v _
    rfl
  rw [collect_eq, hnone]
  simp [List.filter_map, List.filterMap_map, Function.comp_def, Except.toOption]

/-- Of several failures the first one counts. -/
private theorem collect_error {rs : List (Option (Except Error β))}
    (h : ∃ (i : Nat) (e : Error), rs[i]? = some (some (.error e))) :
    ∃ (i : Nat) (e : Error), rs[i]? = some (some (.error e)) ∧ collect rs = .error e ∧
      ∀ (j : Nat) (e' : Error), rs[j]? = some (some (.error e')) → i ≤ j := by
  obtain ⟨i, e, hi⟩ := h
  rcases hfind : rs.findSome? failure? with _ | e
  · rw [List.findSome?_eq_none_iff] at hfind
    cases hfind _ (List.mem_of_getElem? hi)
  · obtain ⟨l, r, l', hrs, hr, hl⟩ := List.findSome?_eq_some_iff.mp hfind
    have he : r = some (.error e) := by
      rcases r with _ | ⟨_ | _⟩
      · cases hr
      · rw [Option.some.inj hr]
      · cases hr
    refine ⟨l.length, e, by simp [hrs, he], by rw [collect_eq, hfind]; rfl, fun j e' hj ↦ ?_⟩
    by_cases hlt : j < l.length
    · rw [hrs, List.getElem?_append_left hlt] at hj
      cases hl _ (List.mem_of_getElem? hj)
    · exact Nat.le_of_not_lt hlt

/-! ## All jobs -/

private theorem mem_results {log : Log σ β} {i : Nat} {r : Except Error β} :
    (i, r) ∈ Log.results log ↔ ∃ e ∈ log, e.1 = i ∧ e.2.result = r := by
  simp [Log.results]

/-- What is found under a job is the result that it had. -/
private theorem lookup_results {log : Log σ β} (hnodup : (Log.order log).Nodup) {i : Nat}
    {r : Except Error β} :
    (Log.results log).reverse.lookup i = some r ↔ ∃ e ∈ log, e.1 = i ∧ e.2.result = r := by
  have hkeys : ((Log.results log).reverse.map (·.1)).Nodup := by
    rw [List.map_reverse, (List.reverse_perm _).nodup_iff, Log.results, List.map_map]
    exact hnodup
  rw [← mem_results, ← List.mem_reverse]
  exact ⟨mem_of_lookup_eq_some, lookup_eq_some_of_mem hkeys⟩

/-- **What is collected.** If jobs in the log failed, then it is the failure of the first of them.
Otherwise, if every job is in the log, it is the values of all jobs. -/
private theorem collect_results {log : Log σ β} {n : Nat} (hnodup : (Log.order log).Nodup)
    (hrange : ∀ e ∈ log, e.1 < n) {r : Except Error (List β)}
    (hr : collect ((List.range n).map fun i ↦ (Log.results log).reverse.lookup i) = r) :
    (∃ e ∈ log, ∃ error, r = .error error ∧ e.2.result = .error error ∧
        ∀ e' ∈ log, ∀ error', e'.2.result = .error error' → e.1 ≤ e'.1) ∨
      (∀ i e, (i, .error e) ∉ Log.results log) ∧ ((∀ i < n, i ∈ Log.order log) →
        ∃ vs, r = .ok vs ∧ vs.length = n ∧
          ∀ e ∈ log, ∃ v, vs[e.1]? = some v ∧ e.2.result = .ok v) := by
  subst hr
  -- a place of the collected list has the result of the job that was performed there
  have hget : ∀ i, i < n → ∀ r,
      ((List.range n).map fun i ↦ (Log.results log).reverse.lookup i)[i]? = some (some r) ↔
        ∃ e ∈ log, e.1 = i ∧ e.2.result = r := by
    intro i hi r
    rw [List.getElem?_map, List.getElem?_range hi, ← lookup_results hnodup, Option.map_some,
      Option.some.injEq]
  by_cases hfailure : ∃ i e, (i, .error e) ∈ Log.results log
  · left
    obtain ⟨i, error, hi⟩ := hfailure
    obtain ⟨e, he, rfl, herror⟩ := mem_results.mp hi
    obtain ⟨i, error, hi, hcollect, hfirst⟩ :=
      collect_error ⟨e.1, error, (hget e.1 (hrange e he) _).mpr ⟨e, he, rfl, herror⟩⟩
    have hlt : i < n := by
      have := (List.getElem?_eq_some_iff.mp hi).1
      rwa [List.length_map, List.length_range] at this
    obtain ⟨e, he, rfl, herror⟩ := (hget i hlt _).mp hi
    refine ⟨e, he, error, hcollect, herror, fun e' he' error' herror' ↦ ?_⟩
    exact hfirst e'.1 error' ((hget e'.1 (hrange e' he') _).mpr ⟨e', he', rfl, herror'⟩)
  · refine .inr ⟨fun i e he ↦ hfailure ⟨i, e, he⟩, fun hcomplete ↦ ?_⟩
    have hok : ∀ e ∈ log, ∃ v, e.2.result = .ok v := by
      intro e he
      cases hr : e.2.result with
      | ok v => exact ⟨v, rfl⟩
      | error error => exact absurd ⟨e.1, error, mem_results.mpr ⟨e, he, rfl, hr⟩⟩ hfailure
    -- everything was performed and nothing failed, so every place has a value
    have hvalue : ∀ i ∈ List.range n, ∃ v : β,
        (Log.results log).reverse.lookup i = some (.ok v) := by
      intro i hi
      obtain ⟨e, he, rfl⟩ := List.mem_map.mp (hcomplete i (List.mem_range.mp hi))
      obtain ⟨v, hv⟩ := hok e he
      exact ⟨v, (lookup_results hnodup).mpr ⟨e, he, rfl, hv⟩⟩
    obtain ⟨vs, hvs⟩ := exists_map_eq_map (g := fun v : β ↦ some (Except.ok v)) hvalue
    rw [hvs] at hget ⊢
    refine ⟨vs, collect_ok vs, ?_, fun e he ↦ ?_⟩
    · have hlength := congrArg List.length hvs
      rwa [List.length_map, List.length_map, List.length_range, eq_comm] at hlength
    · obtain ⟨v, hv⟩ := hok e he
      have := (hget e.1 (hrange e he) _).mpr ⟨e, he, rfl, hv⟩
      rw [List.getElem?_map, Option.map_eq_some_iff] at this
      obtain ⟨v', hv', heq⟩ := this
      obtain rfl := Except.ok.inj (Option.some.inj heq)
      exact ⟨v', hv', hv⟩

/-- **What becomes of the jobs.** The jobs that were performed are those that the schedule starts,
up to a point: those that are started while the flag is not set. Either they all succeeded, and then
they are all jobs and their values are the result; or one of them failed, and the result is the
failure of the first of these. -/
theorem runAll_log {schedule : Schedule jobs.length} {s t : σ} {r : Except Error (List β)}
    {es : List Event} (h : runAll jobs schedule task s = ⟨r, t, es⟩) :
    ∃ log, Performed task jobs s log t ∧ es = Log.events log ∧
      Log.order log <+: starts schedule.steps ∧
      (∀ before j after, schedule.steps = before ++ .start j :: after →
        (j ∈ Log.order log ↔ ¬ Log.Flags log before)) ∧
      ((∃ vs, r = .ok vs ∧ Log.order log = starts schedule.steps ∧ vs.length = jobs.length ∧
          ∀ e ∈ log, ∃ v, vs[e.1]? = some v ∧ e.2.result = .ok v) ∨
        ∃ e ∈ log, ∃ error, r = .error error ∧ e.2.result = .error error ∧
          ∀ e' ∈ log, ∀ error', e'.2.result = .error error' → e.1 ≤ e'.1) := by
  have hstarts := starts_perm schedule.complete
  have hnodup : (starts schedule.steps).Nodup := hstarts.nodup_iff.mpr List.nodup_range
  have hpending : Pending jobs (List.range jobs.length) [] schedule.steps
      (⟨false, []⟩ : Progress β) :=
    ⟨schedule.complete, fun i hi ↦ List.mem_range.mp hi, nofun, hnodup, nofun, nofun⟩
  obtain ⟨log, progress, t', hfold, hperf, hresults, hinitial, hall, hflag, hheeds⟩ :=
    foldlM_advance s hpending
  rw [List.append_nil] at hresults
  rw [runAll, Run.bind_of_ok hfold, hresults] at h
  obtain ⟨hcollect, rfl, rfl⟩ := Outcome.mk.inj h
  have hrange : ∀ e ∈ log, e.1 < jobs.length := by
    intro e he
    refine List.mem_range.mp (hstarts.mem_iff.mp (hinitial.mem ?_))
    exact List.mem_map_of_mem he
  refine ⟨log, hperf, List.append_nil _, hinitial, fun before j after hsteps ↦ ?_, ?_⟩
  · rw [hheeds before j after hsteps, and_iff_right rfl]
    constructor
    · rintro hnone ⟨e, he, hfinish, error, herror⟩
      refine hnone e.1 error ?_ hfinish
      rw [hresults, List.mem_reverse]
      exact mem_results.mpr ⟨e, he, rfl, herror⟩
    · intro hnone i error hi hfinish
      rw [hresults, List.mem_reverse] at hi
      obtain ⟨e, he, rfl, herror⟩ := mem_results.mp hi
      exact hnone ⟨e, he, hfinish, error, herror⟩
  · rcases collect_results (hnodup.sublist hinitial.sublist) hrange hcollect with
      hfailure | ⟨hnone, hvalues⟩
    · exact .inr hfailure
    · -- without a failure the flag was never set, so everything was performed
      have horder : Log.order log = starts schedule.steps := by
        refine hall (Bool.eq_false_iff.mpr fun hfailed ↦ ?_)
        obtain ⟨i, e, hi⟩ := hflag.cause hfailed
        rw [hresults, List.mem_reverse] at hi
        exact hnone i e hi
      obtain ⟨vs, hvs, hlength, hvalue⟩ := hvalues fun i hi ↦ by
        rw [horder, hstarts.mem_iff]
        exact List.mem_range.mpr hi
      exact .inl ⟨vs, hvs, horder, hlength, hvalue⟩

/-- The outcome of all jobs, without the moments at which they were started. -/
theorem runAll_outcome {schedule : Schedule jobs.length} {s t : σ} {r : Except Error (List β)}
    {es : List Event} (h : runAll jobs schedule task s = ⟨r, t, es⟩) :
    ∃ log, Performed task jobs s log t ∧ es = Log.events log ∧
      Log.order log <+: starts schedule.steps ∧
      ((∃ vs, r = .ok vs ∧ Log.order log = starts schedule.steps ∧ vs.length = jobs.length ∧
          ∀ e ∈ log, ∃ v, vs[e.1]? = some v ∧ e.2.result = .ok v) ∨
        ∃ e ∈ log, ∃ error, r = .error error ∧ e.2.result = .error error ∧
          ∀ e' ∈ log, ∀ error', e'.2.result = .error error' → e.1 ≤ e'.1) := by
  obtain ⟨log, hperf, hevents, hinitial, -, hall⟩ := runAll_log h
  exact ⟨log, hperf, hevents, hinitial, hall⟩

theorem length_of_runAll_ok {schedule : Schedule jobs.length} {s t : σ} {vs : List β}
    {es : List Event} (h : runAll jobs schedule task s = ⟨.ok vs, t, es⟩) :
    vs.length = jobs.length := by
  obtain ⟨log, -, -, -, hall⟩ := runAll_outcome h
  rcases hall with ⟨vs', hvs, -, hlength, -⟩ | ⟨-, -, error, herror, -⟩
  · rw [Except.ok.inj hvs, hlength]
  · cases herror

/-- When the result of every job is settled beforehand, so is the result of all of them, and the
schedule has no influence on it as far as it is a success. -/
theorem runAll_ok_iff {F : α → Except Error β} {schedule : Schedule jobs.length} {s : σ}
    {vs : List β} (hF : ∀ job s, (task job s).result = F job) :
    (runAll jobs schedule task s).result = .ok vs ↔ jobs.map F = vs.map .ok := by
  rcases h : runAll jobs schedule task s with ⟨r, t, es⟩
  obtain ⟨log, hperf, -, -, hall⟩ := runAll_outcome h
  rcases hall with ⟨vs', rfl, horder, hlength, hok⟩ | ⟨e, he, error, rfl, hresult, -⟩
  · have hvalues : jobs.map F = vs'.map .ok := by
      refine List.ext_getElem? fun i ↦ ?_
      rw [List.getElem?_map, List.getElem?_map]
      by_cases hi : i < jobs.length
      · have hmem : i ∈ starts schedule.steps :=
          (starts_perm schedule.complete).mem_iff.mpr (List.mem_range.mpr hi)
        rw [← horder] at hmem
        obtain ⟨e, he, rfl⟩ := List.mem_map.mp hmem
        obtain ⟨job, s', hjob, houtcome⟩ := hperf.outcome he
        obtain ⟨v, hv, hresult⟩ := hok e he
        rw [houtcome, hF] at hresult
        rw [hjob, hv, Option.map_some, Option.map_some, hresult]
      · rw [List.getElem?_eq_none (Nat.le_of_not_lt hi),
          List.getElem?_eq_none (hlength ▸ Nat.le_of_not_lt hi)]
        rfl
    rw [hvalues, List.map_inj_right fun _ _ ↦ Except.ok.inj, Except.ok.injEq]
  · obtain ⟨job, s', hjob, houtcome⟩ := hperf.outcome he
    rw [houtcome, hF] at hresult
    constructor
    · intro hr
      cases hr
    · intro hvalues
      have hmem := List.mem_map_of_mem (f := F) (List.mem_of_getElem? hjob)
      rw [hvalues, hresult] at hmem
      obtain ⟨v, -, hv⟩ := List.mem_map.mp hmem
      cases hv

theorem Performed.always {R : σ → List Event → σ → Prop} (hR : Run.Composes R)
    (h : ∀ job, Run.Always R (task job)) {s t : σ} {log : Log σ β}
    (hlog : Performed task jobs s log t) : R s (Log.events log) t := by
  induction hlog with
  | nil s => exact hR.nil s
  | cons _ _ ih => exact hR.append (h _ _) ih

/-- What holds of every task from its beginning to its end holds of all of them together. -/
theorem always_runAll {R : σ → List Event → σ → Prop} (hR : Run.Composes R)
    {schedule : Schedule jobs.length} (h : ∀ job, Run.Always R (task job)) :
    Run.Always R (runAll jobs schedule task) := by
  intro s
  rcases hrun : runAll jobs schedule task s with ⟨r, t, es⟩
  obtain ⟨log, hperf, rfl, -, -⟩ := runAll_outcome hrun
  exact hperf.always hR h

/-- When all jobs succeed and each of them is told by one event of some sort, these events tell the
jobs in the order of the schedule, each with its value. -/
theorem filterMap_runAll {γ : Type} {g : Event → Option γ} {tell : α → β → γ}
    {schedule : Schedule jobs.length} {s t : σ} {vs : List β} {es : List Event}
    (htell : ∀ job s v, (task job s).result = .ok v →
      (task job s).events.filterMap g = [tell job v])
    (h : runAll jobs schedule task s = ⟨.ok vs, t, es⟩) :
    es.filterMap g = (schedule.order (jobs.zip vs)).map fun p ↦ tell p.1 p.2 := by
  obtain ⟨log, hperf, rfl, -, hall⟩ := runAll_outcome h
  rcases hall with ⟨vs', hvs, horder, hlength, hok⟩ | ⟨-, -, error, herror, -⟩
  · obtain rfl := Except.ok.inj hvs
    rw [order, ← horder, Log.events, Log.order, List.filterMap_flatMap, List.filterMap_map,
      List.map_filterMap]
    refine flatMap_eq_filterMap fun e he ↦ ?_
    obtain ⟨job, s', hjob, he'⟩ := hperf.outcome he
    obtain ⟨v, hv, hresult⟩ := hok e he
    rw [he'] at hresult
    have hzip : (jobs.zip vs)[e.1]? = some (job, v) := List.getElem?_zip_eq_some.mpr ⟨hjob, hv⟩
    refine ⟨tell job v, by rw [he', htell job s' v hresult], ?_⟩
    rw [Function.comp_apply, hzip, Option.map_some]
  · cases herror

end FragmentArchive.Schedule
