import FragmentArchive.Proofs.Schedule

/-!
# The barrier

Handing jobs to a pool and waiting for them is a barrier: behind it there are either all values or
an error. What lies before it depends on the schedule. Several jobs may be running when the first
one fails, further ones may fail before the flag is seen, and jobs may be left out that come before
the one that failed, so what is collected is any mixture of values, failures and gaps.

The log of performed jobs tells them apart. A job is in the log exactly if it is started before any
failed job has finished. A gap therefore implies a failure, and a scan for the first failure finds
one whenever there is a gap.

A single worker who takes the jobs in order finishes each of them before the next one starts. Then
the flag is never behind, and the log ends with the first failure.
-/

namespace FragmentArchive.Schedule

variable {σ α β : Type}

/-! ## A single worker -/

theorem steps_inOrder (n : Nat) :
    (inOrder n).steps = (List.range n).flatMap fun i ↦ [.start i, .finish i] := rfl

/-- When a job starts, those that come before it have finished, and no others. -/
theorem exists_steps_inOrder {n j : Nat} (hj : j < n) :
    ∃ before after, (inOrder n).steps = before ++ .start j :: after ∧
      ∀ i, .finish i ∈ before ↔ i < j := by
  obtain ⟨k, rfl⟩ := Nat.exists_eq_add_of_lt hj
  have hrange : List.range (j + k + 1) = List.range j ++ j :: (List.range k).map (j + 1 + ·) := by
    rw [Nat.add_right_comm, List.range_add, List.range_succ, List.append_assoc]
    rfl
  refine ⟨_, _, by rw [steps_inOrder, hrange, List.flatMap_append, List.flatMap_cons]; rfl,
    fun i ↦ ?_⟩
  simp

/-- In the log of a single worker nothing comes behind a failure. -/
private theorem length_of_failed {jobs : List α} {log : Log σ β}
    (hinitial : Log.order log <+: List.range jobs.length)
    (hwhen : ∀ before j after, (inOrder jobs.length).steps = before ++ .start j :: after →
      (j ∈ Log.order log ↔ ¬ Log.Flags log before)) :
    Log.order log = List.range log.length ∧
      ∀ e ∈ log, ∀ error, e.2.result = .error error → log.length = e.1 + 1 := by
  have horder : Log.order log = List.range log.length := by
    have htake := List.prefix_iff_eq_take.mp hinitial
    have hle := hinitial.length_le
    rw [Log.order, List.length_map, List.length_range] at hle
    rwa [List.take_range, Log.order, List.length_map, Nat.min_eq_left hle] at htake
  refine ⟨horder, fun e he error herror ↦ ?_⟩
  have hlt : e.1 < log.length := by
    rw [← List.mem_range, ← horder]
    exact List.mem_map_of_mem he
  refine Nat.le_antisymm (Nat.le_of_not_lt fun hnext ↦ ?_) hlt
  -- the job behind the failed one would have been started after its end
  have hmem : e.1 + 1 ∈ Log.order log := by
    rw [horder]
    exact List.mem_range.mpr hnext
  obtain ⟨before, after, hsteps, hbefore⟩ :=
    exists_steps_inOrder (List.mem_range.mp (hinitial.mem hmem))
  refine (hwhen before _ after hsteps).mp hmem ⟨e, he, ?_, error, herror⟩
  exact (hbefore e.1).mpr (Nat.lt_succ_self _)

/-- Jobs that were all performed in their order, from some place on, come to what they come to one
after the other. -/
private theorem each_of_values {task : α → Run σ β} {jobs : List α} {vs : List β} {s t : σ}
    {log : Log σ β} {k : Nat} (hperf : Performed task jobs s log t)
    (horder : Log.order log = List.range' k (jobs.length - k)) (hlength : vs.length = jobs.length)
    (hvalues : ∀ e ∈ log, ∃ v, vs[e.1]? = some v ∧ e.2.result = .ok v) :
    Run.each task (jobs.drop k) s = ⟨.ok (vs.drop k), t, Log.events log⟩ := by
  induction hperf generalizing k with
  | nil s =>
    have hnone : jobs.length - k = 0 := by
      have := congrArg List.length horder
      rwa [List.length_range', eq_comm] at this
    rw [List.drop_eq_nil_of_le (by omega), List.drop_eq_nil_of_le (by omega)]
    rfl
  | @cons i job s t log hjob hlog ih =>
    obtain ⟨n, hn⟩ : ∃ n, jobs.length - k = n + 1 := by
      refine Nat.exists_eq_add_one_of_ne_zero fun hzero ↦ ?_
      rw [hzero] at horder
      cases horder
    rw [hn] at horder
    obtain rfl : i = k := (List.cons.inj horder).1
    have horder : Log.order log = List.range' (i + 1) (jobs.length - (i + 1)) := by
      rw [show jobs.length - (i + 1) = n by omega]
      exact (List.cons.inj horder).2
    obtain ⟨hi, hjob⟩ := List.getElem?_eq_some_iff.mp hjob
    obtain ⟨v, hv, hresult⟩ := hvalues _ List.mem_cons_self
    obtain ⟨hi', hv⟩ := List.getElem?_eq_some_iff.mp hv
    have hrest := ih horder fun e he ↦ hvalues e (List.mem_cons_of_mem _ he)
    have htask : task job s = ⟨.ok v, (task job s).memory, (task job s).events⟩ :=
      congrArg (Outcome.mk · _ _) hresult
    rw [List.drop_eq_getElem_cons hi, List.drop_eq_getElem_cons hi', hjob, hv, Run.each,
      Run.bind_of_ok htask, Run.bind_of_ok hrest, Run.pure_apply, List.append_nil]
    rfl

/-- Jobs of which the last one failed come to its failure. -/
private theorem each_of_failure {task : α → Run σ β} {jobs : List α} {s t : σ} {log : Log σ β}
    {k : Nat} (hperf : Performed task jobs s log t)
    (horder : Log.order log = List.range' k log.length)
    (hlast : ∀ e ∈ log, ∀ error, e.2.result = .error error → k + log.length = e.1 + 1)
    {e : Nat × Outcome σ β} (he : e ∈ log) {error : Error} (herror : e.2.result = .error error) :
    Run.each task (jobs.drop k) s = ⟨.error error, t, Log.events log⟩ := by
  induction hperf generalizing k with
  | nil s => cases he
  | @cons i job s t log hjob hlog ih =>
    obtain rfl : i = k := (List.cons.inj horder).1
    have horder : Log.order log = List.range' (i + 1) log.length := (List.cons.inj horder).2
    obtain ⟨hi, hjob⟩ := List.getElem?_eq_some_iff.mp hjob
    rw [List.drop_eq_getElem_cons hi, hjob, Run.each]
    rcases htask : task job s with ⟨error' | v, s', es⟩
    · -- the first of them failed, so it is the last one, too
      have hnone : log = [] := by
        have hlength := hlast _ List.mem_cons_self error' (congrArg Outcome.result htask)
        rw [List.length_cons] at hlength
        exact List.eq_nil_of_length_eq_zero (by omega)
      subst hnone
      cases hlog
      rw [List.mem_singleton.mp he, htask] at herror
      obtain rfl := Except.error.inj herror
      rw [Run.bind_of_error htask, htask]
      simp [Log.events]
    · rcases List.mem_cons.mp he with rfl | he
      · cases (congrArg Outcome.result htask).symm.trans herror
      · rw [htask] at ih
        have hrest := ih horder (fun e he error herror ↦ by
          have hlength := hlast e (List.mem_cons_of_mem _ he) error herror
          rw [List.length_cons] at hlength
          omega) he
        rw [Run.bind_of_ok htask, Run.bind_of_error hrest]
        rfl

/-- **A single worker does the jobs one after the other, and nothing behind a failure.** -/
theorem runAll_inOrder (jobs : List α) (task : α → Run σ β) :
    runAll jobs (inOrder jobs.length) task = Run.each task jobs := by
  funext s
  rcases hrun : runAll jobs (inOrder jobs.length) task s with ⟨r, t, es⟩
  obtain ⟨log, hperf, rfl, hinitial, hwhen, hall⟩ := runAll_log hrun
  rw [steps_inOrder, show starts _ = _ from starts_oneByOne _] at hinitial hall
  obtain ⟨horder, hlast⟩ := length_of_failed hinitial hwhen
  rcases hall with ⟨vs, rfl, hfull, hlength, hvalues⟩ | ⟨e, he, error, rfl, herror, -⟩
  · rw [List.range_eq_range'] at hfull
    exact (each_of_values hperf (k := 0) hfull hlength hvalues).symm
  · rw [List.range_eq_range'] at horder
    refine (each_of_failure hperf (k := 0) horder (fun e he error herror ↦ ?_) he herror).symm
    rw [Nat.zero_add]
    exact hlast e he error herror

/-! ## All schedules -/

/-- **The barrier holds under every schedule.** The jobs in the log are performed, each once and
from the memory that the one before it left behind, and nothing else happens. A job is performed
exactly if the flag is not set at the moment of its start, that is, if no job that failed has
finished by then.

If none of the performed jobs fails, they are all jobs, and the result are their values in the order
of the jobs. If one of them fails, the result is the error of the first job, in the order of the
jobs, among those that were performed and failed; so there is never a list with gaps.

A single worker who takes the jobs in order performs those up to the first failure, this one
included, or all of them. -/
theorem barrier_holds (jobs : List α) (schedule : Schedule jobs.length) (task : α → Run σ β)
    (s : σ) :
    ∃ log : Log σ β,
      (Performed task jobs s log (runAll jobs schedule task s).memory ∧
        (runAll jobs schedule task s).events = Log.events log ∧ (Log.order log).Nodup) ∧
      (∀ before j after, schedule.steps = before ++ .start j :: after →
        (j ∈ Log.order log ↔ ¬ Log.Flags log before)) ∧
      ((∀ e ∈ log, ∃ v, e.2.result = .ok v) → (Log.order log).Perm (List.range jobs.length) ∧
        ∃ vs, (runAll jobs schedule task s).result = .ok vs ∧ vs.length = jobs.length ∧
          ∀ e ∈ log, ∃ v, vs[e.1]? = some v ∧ e.2.result = .ok v) ∧
      ((∃ e ∈ log, ∃ error, e.2.result = .error error) →
        ∃ e ∈ log, ∃ error, e.2.result = .error error ∧
          (runAll jobs schedule task s).result = .error error ∧
          ∀ e' ∈ log, ∀ error', e'.2.result = .error error' → e.1 ≤ e'.1) ∧
      (schedule = inOrder jobs.length → Log.order log = List.range log.length ∧
        ∀ e ∈ log, ∀ error, e.2.result = .error error → log.length = e.1 + 1) := by
  have hstarts := starts_perm schedule.complete
  obtain ⟨log, hperf, hevents, hinitial, hwhen, hall⟩ :=
    runAll_log (show runAll jobs schedule task s = ⟨_, _, _⟩ from rfl)
  refine ⟨log, ⟨hperf, hevents, ?_⟩, hwhen, fun hok ↦ ?_, fun ⟨e', he', error', herror'⟩ ↦ ?_, ?_⟩
  · exact (hstarts.nodup_iff.mpr List.nodup_range).sublist hinitial.sublist
  · rcases hall with ⟨vs, hresult, horder, hlength, hvalues⟩ | ⟨e, he, error, -, herror, -⟩
    · exact ⟨horder ▸ hstarts, vs, hresult, hlength, hvalues⟩
    · obtain ⟨v, hv⟩ := hok e he
      cases herror.symm.trans hv
  · rcases hall with ⟨vs, -, -, -, hvalues⟩ | ⟨e, he, error, hresult, herror, hfirst⟩
    · obtain ⟨v, -, hv⟩ := hvalues e' he'
      cases herror'.symm.trans hv
    · exact ⟨e, he, error, herror, hresult, hfirst⟩
  · rintro rfl
    apply length_of_failed _ hwhen
    rwa [steps_inOrder, show starts _ = _ from starts_oneByOne _] at hinitial

/-- Two workers: the last job fails first, the first job is left out for that, and the third job,
which was running at the time, fails as well. The error is that of the third job, since the second
one, which would have failed before it, was left out. -/
example :
    let schedule : Schedule 4 :=
      ⟨[.start 3, .start 2, .finish 3, .start 0, .finish 0, .finish 2, .start 1, .finish 1], rfl⟩
    let task (job : Nat) : Run (List Nat) Nat := fun done ↦
      ⟨if job = 0 then .ok job else .error (.matcher (toString job)), job :: done, []⟩
    let outcome := runAll [0, 1, 2, 3] schedule task []
    outcome.result = .error (.matcher "2") ∧ outcome.memory = [2, 3] :=
  ⟨rfl, rfl⟩

end FragmentArchive.Schedule
