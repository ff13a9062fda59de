import FragmentArchive.Proofs.Naming
import FragmentArchive.Proofs.SortedMap

/-!
# Histories of a path assigner

A path assigner serves one run after the other. What it remembers is determined by the fragments
that were requested for the first time since the last run began, in their order; whatever came
before, and however often a fragment was requested again, leaves no trace. So a history can be
replaced by these first requests, and every law about names is a law about lists without
repetitions.

## Two tables

A naming finds the number of a new name by looking at all names. One can as well keep a counter for
each stem beside the table of names. The counters are only right as long as they are stepped for new
fragments and for nothing else; then they agree with the table, and so do the paths.
-/

namespace FragmentArchive

/-! ## Histories -/

/-- What a path assigner is used for: a run begins, or a fragment is to be named. -/
inductive Naming.Use
  | restart
  | request (f : Fragment)
deriving DecidableEq

namespace PathAssigner

open Naming (Use)

variable {π : Type}

/-- What is remembered after a use. -/
def use (assigner : PathAssigner π) (naming : π) : Use → π
  | .restart => assigner.restart naming
  | .request f => (assigner.path f naming).2

/-- What is remembered after a history. -/
def afterUses (assigner : PathAssigner π) (naming : π) (uses : List Use) : π :=
  uses.foldl assigner.use naming

/-- The path that is given to a fragment after a history. -/
def answer (assigner : PathAssigner π) (naming : π) (uses : List Use) (f : Fragment) :
    ArchivePath :=
  (assigner.path f (assigner.afterUses naming uses)).1

end PathAssigner

namespace Naming

/-- The requests of the present run after one more use. -/
def Use.record (requests : List Fragment) : Use → List Fragment
  | .restart => []
  | .request f => requests ++ [f]

/-- The requests since the last run began. -/
def current (uses : List Use) : List Fragment := uses.foldl Use.record []

variable {uses uses' before later : List Use} {f g : Fragment}

/-- What a run that begins finds is what it leaves by itself. -/
theorem current_restart (before : List Use) (requests : List Fragment) :
    current (before ++ .restart :: requests.map .request) = requests := by
  have hrecord : ∀ earlier : List Fragment,
      (requests.map Use.request).foldl Use.record earlier = earlier ++ requests := by
    induction requests with
    | nil => exact fun earlier ↦ (List.append_nil earlier).symm
    | cons f requests ih =>
      intro earlier
      rw [List.map_cons, List.foldl_cons, ih, Use.record, List.append_assoc, List.singleton_append]
  rw [current, List.foldl_append, List.foldl_cons, Use.record, hrecord, List.nil_append]

/-- A request that no beginning follows is the first use, or comes later. -/
private theorem exists_request_cons (use : Use) :
    (∃ before later, use :: uses = before ++ .request f :: later ∧ .restart ∉ later) ↔
      (use = .request f ∧ .restart ∉ uses) ∨
        ∃ before later, uses = before ++ .request f :: later ∧ .restart ∉ later := by
  constructor
  · rintro ⟨before, later, h, hlater⟩
    rcases List.cons_eq_append_iff.mp h with ⟨-, h⟩ | ⟨before', -, h⟩
    · obtain ⟨rfl, rfl⟩ := List.cons.inj h
      exact .inl ⟨rfl, hlater⟩
    · exact .inr ⟨before', later, h, hlater⟩
  · rintro (⟨rfl, h⟩ | ⟨before, later, rfl, h⟩)
    · exact ⟨[], uses, rfl, h⟩
    · exact ⟨use :: before, later, rfl, h⟩

private theorem mem_foldl_record (requests : List Fragment) :
    f ∈ uses.foldl Use.record requests ↔
      (f ∈ requests ∧ .restart ∉ uses) ∨
        ∃ before later, uses = before ++ .request f :: later ∧ .restart ∉ later := by
  induction uses generalizing requests with
  | nil => simp
  | cons use uses ih =>
    rw [List.foldl_cons, ih, exists_request_cons]
    cases use with
    | restart => simp [Use.record]
    | request g =>
      simp only [Use.record, List.mem_append, List.mem_cons, List.not_mem_nil, or_false,
        Use.request.injEq, reduceCtorEq, false_or, or_and_right, or_assoc, eq_comm (a := f)]

/-- A fragment was requested in the present run iff no run began since some request for it. -/
theorem mem_current_iff :
    f ∈ current uses ↔
      ∃ before later, uses = before ++ .request f :: later ∧ .restart ∉ later := by
  rw [current, mem_foldl_record]
  simp

/-- As long as no run begins, requests only come behind the earlier ones. -/
theorem exists_current_append (before : List Use) (h : .restart ∉ later) :
    ∃ requests, current (before ++ later) = current before ++ requests := by
  rw [current, current, List.foldl_append]
  induction later generalizing before with
  | nil => exact ⟨[], (List.append_nil _).symm⟩
  | cons use later ih =>
    cases use with
    | restart => exact absurd List.mem_cons_self h
    | request f =>
      obtain ⟨requests, hrequests⟩ :=
        ih (before ++ [.request f]) (fun hmem ↦ h (List.mem_cons_of_mem _ hmem))
      refine ⟨f :: requests, ?_⟩
      rw [List.foldl_append] at hrequests
      rw [List.foldl_cons]
      exact hrequests.trans (List.append_assoc _ [f] requests)

/-! ## What is remembered -/

/-- What one more use of a naming does. -/
theorem use_after (requests : List Fragment) (use : Use) :
    standard.use (after requests) use = after (use.record requests) := by
  cases use with
  | restart => rfl
  | request f => exact congrArg Prod.snd (path_after requests f)

private theorem foldl_use_after (requests : List Fragment) (uses : List Use) :
    uses.foldl standard.use (after requests) = after (uses.foldl Use.record requests) := by
  induction uses generalizing requests with
  | nil => rfl
  | cons use uses ih => rw [List.foldl_cons, List.foldl_cons, use_after, ih]

/-- **What a history leaves behind** are the names of the present run. -/
theorem afterUses_eq (uses : List Use) : standard.afterUses ∅ uses = after (current uses) :=
  foldl_use_after [] uses

theorem answer_eq (uses : List Use) (f : Fragment) :
    standard.answer ∅ uses f = pathFor f.stem (rank (current uses ++ [f]) f) := by
  rw [PathAssigner.answer, afterUses_eq]
  exact congrArg Prod.fst (path_after (current uses) f)

theorem answer_of_mem (h : f ∈ current uses) :
    standard.answer ∅ uses f = pathFor f.stem (rank (current uses) f) := by
  rw [answer_eq, rank_append h]

/-- The first name of a stem has no number, the later ones are numbered from two. -/
theorem pathFor_eq (stem : String) (earlier : Nat) :
    pathFor stem earlier =
      ⟨if earlier = 0 then stem ++ ".apk"
        else stem ++ "_" ++ Decimal.ofNat (earlier + 1) ++ ".apk"⟩ := by
  rw [pathFor]
  split
  · rw [String.append_empty]
  · simp only [String.append_assoc]

/-- A new fragment is counted behind those with its stem. -/
theorem answer_of_not_mem (h : f ∉ current uses) :
    standard.answer ∅ uses f =
      pathFor f.stem ((current uses).eraseDups.countP (·.stem = f.stem)) := by
  rw [answer_eq, rank, eraseDups_concat_of_not_mem h,
    rankAmong_concat (mt List.mem_eraseDups.mp h)]

/-- A fragment keeps its path until the next run begins. -/
theorem answer_repeated (before : List Use) (h : .restart ∉ later) :
    standard.answer ∅ (before ++ .request f :: later) f = standard.answer ∅ before f := by
  obtain ⟨requests, hrequests⟩ := exists_current_append (before ++ [.request f]) h
  have hcurrent : current (before ++ .request f :: later) = current before ++ [f] ++ requests := by
    rw [List.append_cons, hrequests, current, List.foldl_append]
    rfl
  have hf : f ∈ current before ++ [f] := List.mem_append_right _ (List.mem_singleton_self f)
  rw [answer_of_mem (by rw [hcurrent]; exact List.mem_append_left _ hf), hcurrent,
    rank_append hf, answer_eq]

/-- A fragment that has a path can be requested once more without any trace. -/
theorem afterUses_repeated (h : f ∈ current uses) (later : List Use) :
    standard.afterUses ∅ (uses ++ .request f :: later) = standard.afterUses ∅ (uses ++ later) := by
  have hsplit : ∀ uses', standard.afterUses ∅ (uses ++ uses') =
      uses'.foldl standard.use (after (current uses)) := by
    intro uses'
    rw [← afterUses_eq]
    exact List.foldl_append
  rw [hsplit, hsplit, List.foldl_cons, use_after, Use.record, after_concat_of_mem h]

/-- Only the first requests of the present run are remembered. -/
theorem afterUses_congr (h : (current uses).eraseDups = (current uses').eraseDups) :
    standard.afterUses ∅ uses = standard.afterUses ∅ uses' := by
  simp only [afterUses_eq, after, rank, h]

/-- Fragments with one stem have different paths, whether the second has one already or not. -/
theorem answer_ne (hg : g ∈ current uses) (hne : g ≠ f) (hstem : g.stem = f.stem) :
    standard.answer ∅ uses g ≠ standard.answer ∅ uses f := by
  intro h
  have hf : f ∈ (current uses ++ [f]).eraseDups :=
    List.mem_eraseDups.mpr (List.mem_append_right _ (List.mem_singleton_self f))
  have hg' : g ∈ (current uses ++ [f]).eraseDups :=
    List.mem_eraseDups.mpr (List.mem_append_left _ hg)
  rw [answer_of_mem hg, ← rank_append hg [f], answer_eq, hstem, pathFor_inj_iff,
    body_inj_iff] at h
  have hlonger : ∀ number, f.stem ≠ f.stem ++ "_" ++ number := by
    intro number heq
    have hlength := congrArg String.length heq
    rw [String.length_append, String.length_append] at hlength
    have hmark : "_".length = 1 := rfl
    omega
  rcases h with ⟨-, h⟩ | ⟨-, -, h⟩ | ⟨-, -, h⟩
  · exact hne (rankAmong_inj hg' hf hstem h)
  · exact hlonger _ h
  · exact hlonger _ h

/-! ## Counters -/

/-- The names of a run, and beside them the number of the last name of each stem. -/
structure Tally where
  counters : SortedMap String Nat
  given : List (Fragment × ArchivePath)

namespace Tally

/-- The beginning of a run. -/
def empty : Tally := ⟨∅, []⟩

instance : EmptyCollection Tally := ⟨empty⟩

/-- Names a fragment with the next number of its stem. -/
def path (f : Fragment) (t : Tally) : ArchivePath × Tally :=
  match t.given.lookup f with
  | some path => (path, t)
  | none =>
    let number := (t.counters.get? f.stem).getD 0 + 1
    let path : ArchivePath :=
      ⟨if number = 1 then f.stem ++ ".apk" else f.stem ++ "_" ++ Decimal.ofNat number ++ ".apk"⟩
    (path, ⟨t.counters.insert f.stem number, t.given ++ [(f, path)]⟩)

/-- The path assigner that keeps counters. -/
def counting : PathAssigner Tally where
  restart _ := ∅
  path

/-- The names are those of a naming, and every counter is the number of names with its stem. -/
structure Keeps (t : Tally) (n : Naming) : Prop where
  given_eq : t.given = n.given
  counter_eq (stem : String) : (t.counters.get? stem).getD 0 = n.count stem

variable {t : Tally} {n : Naming}

theorem keeps_empty : Keeps ∅ ∅ := ⟨rfl, fun _ ↦ rfl⟩

/-- A name is numbered alike by its counter and by the names before it. -/
theorem Keeps.path (h : t.Keeps n) (f : Fragment) :
    (path f t).1 = (Naming.path f n).1 ∧ (path f t).2.Keeps (Naming.path f n).2 := by
  rw [Tally.path, Naming.path, h.given_eq, h.counter_eq]
  cases n.given.lookup f with
  | some path => exact ⟨rfl, h⟩
  | none =>
    simp only [Nat.add_eq_right, ← pathFor_eq]
    refine ⟨trivial, rfl, fun stem ↦ ?_⟩
    change ((t.counters.insert _ _).get? stem).getD 0 = List.countP _ (n.given ++ [_])
    rw [SortedMap.insert, List.countP_append, List.countP_singleton]
    -- only the counter of the new name is stepped
    by_cases hstem : stem = f.stem
    · rw [hstem, SortedMap.get?_update, if_pos (by simp)]
      rfl
    · rw [SortedMap.get?_update_of_ne hstem, h.counter_eq, if_neg (by simpa using Ne.symm hstem)]
      rfl

theorem Keeps.use (h : t.Keeps n) (use : Use) :
    (counting.use t use).Keeps (standard.use n use) := by
  cases use with
  | restart => exact keeps_empty
  | request f => exact (h.path f).2

/-- **Counters stay in step** with the names over every history. -/
theorem keeps_afterUses (uses : List Use) :
    (counting.afterUses ∅ uses).Keeps (standard.afterUses ∅ uses) := by
  have hrun : ∀ (t : Tally) (n : Naming), t.Keeps n →
      (uses.foldl counting.use t).Keeps (uses.foldl standard.use n) := by
    induction uses with
    | nil => exact fun _ _ h ↦ h
    | cons use uses ih => exact fun _ _ h ↦ ih _ _ (h.use use)
  exact hrun ∅ ∅ keeps_empty

theorem answer_counting (uses : List Use) (f : Fragment) :
    counting.answer ∅ uses f = standard.answer ∅ uses f :=
  ((keeps_afterUses uses).path f).1

end Tally

/-- Two runs with the same first requests name a fragment alike, whatever came before them. -/
theorem answer_run_congr (before before' : List Use) {earlier earlier' rest rest' : List Fragment}
    (h : (earlier ++ f :: rest).eraseDups = (earlier' ++ f :: rest').eraseDups) :
    standard.answer ∅ (before ++ .restart :: earlier.map .request) f =
      standard.answer ∅ (before' ++ .restart :: earlier'.map .request) f := by
  have hrank : ∀ (earlier rest : List Fragment),
      rank (earlier ++ [f]) f = rank (earlier ++ f :: rest) f := by
    intro earlier rest
    rw [List.append_cons earlier f rest,
      rank_append (List.mem_append_right earlier (List.mem_singleton_self f))]
  rw [answer_eq, answer_eq, current_restart, current_restart, hrank earlier rest,
    hrank earlier' rest', rank, rank, h]

/-- **The names that a path assigner gives**, over every history. A fragment that is requested for
the first time in the present run is named after its stem and the number of other fragments with
that stem that were requested before it. It keeps this path until the next run begins, and neither
later requests for it nor what was before the run has an influence on any path. -/
theorem names_follow_first_requests (uses : List Use) (f : Fragment) :
    let first := (current uses).eraseDups
    let k := first.countP (·.stem = f.stem)
    -- a fragment that is new in this run
    (f ∉ current uses → standard.answer ∅ uses f =
      ⟨if k = 0 then f.stem ++ ".apk"
        else f.stem ++ "_" ++ Decimal.ofNat (k + 1) ++ ".apk"⟩) ∧
    -- one that was requested in it before gets its path again, and this changes nothing
    (∀ before later, uses = before ++ .request f :: later → .restart ∉ later →
      standard.answer ∅ uses f = standard.answer ∅ before f ∧
        ∀ others g, standard.answer ∅ (uses ++ .request f :: others) g =
          standard.answer ∅ (uses ++ others) g) ∧
    -- only first requests have an influence, in this run and in two different ones
    (∀ uses' g, (current uses').eraseDups = first →
      standard.answer ∅ uses' g = standard.answer ∅ uses g) ∧
    (∀ before before' earlier earlier' rest rest',
      (earlier ++ f :: rest).eraseDups = (earlier' ++ f :: rest').eraseDups →
      standard.answer ∅ (before ++ .restart :: earlier.map .request) f =
        standard.answer ∅ (before' ++ .restart :: earlier'.map .request) f) ∧
    -- fragments with one stem are told apart
    (∀ g ∈ current uses, g ≠ f → g.stem = f.stem →
      standard.answer ∅ uses g ≠ standard.answer ∅ uses f) ∧
    -- counters beside the names would number them alike, each being the number of names it counts
    Tally.counting.answer ∅ uses f = standard.answer ∅ uses f ∧
      ∀ stem, ((Tally.counting.afterUses ∅ uses).counters.get? stem).getD 0 =
        (standard.afterUses ∅ uses).count stem := by
  intro first k
  refine ⟨fun hf ↦ ?_, fun before later huses hlater ↦ ⟨?_, fun others g ↦ ?_⟩, fun uses' g h ↦ ?_,
    fun before before' _ _ _ _ h ↦ answer_run_congr before before' h,
    fun g hg hne hstem ↦ answer_ne hg hne hstem, Tally.answer_counting uses f,
    (Tally.keeps_afterUses uses).counter_eq⟩
  · rw [answer_of_not_mem hf, pathFor_eq]
  · rw [huses, answer_repeated before hlater]
  · have hf : f ∈ current uses := mem_current_iff.mpr ⟨before, later, huses, hlater⟩
    rw [PathAssigner.answer, afterUses_repeated hf, PathAssigner.answer]
  · rw [PathAssigner.answer, afterUses_congr h, PathAssigner.answer]

/-- After a new beginning the numbers start again, and a third fragment with the stem of two others
gets the number three although there were five requests for them. -/
theorem third_of_a_stem_is_numbered_three :
    let master : Fragment :=
      { Fragment.untargeted .base .split (.ofPackage "p") with isMaster := true }
    let second : Fragment := { master with manifest := .ofPackage "q" }
    let third : Fragment := { master with manifest := .ofPackage "r" }
    let uses : List Use := [.request third, .restart, .request second, .request master,
      .request second, .request second, .request master]
    standard.answer ∅ uses third = ⟨"splits/base-master_3.apk"⟩ ∧
      standard.answer ∅ uses second = ⟨"splits/base-master.apk"⟩ ∧
      standard.answer ∅ uses master ≠ standard.answer ∅ uses third := by
  intro master second third uses
  obtain ⟨hnew, -, -, -, hdistinct, -⟩ := names_follow_first_requests uses third
  refine ⟨(hnew (by decide)).trans (by decide +kernel), ?_, ?_⟩
  · obtain ⟨-, hsame, -⟩ := names_follow_first_requests uses second
    have hfirst := (hsame [.request third, .restart]
      [.request master, .request second, .request second, .request master] rfl (by decide)).1
    exact hfirst.trans (by decide +kernel)
  · exact hdistinct master (by decide) (by decide) (by decide +kernel)

end Naming

end FragmentArchive
