import FragmentArchive.Proofs.KeptFiles
import FragmentArchive.Proofs.Obstacles

/-!
# Requests that fail

A request to store an artifact uses its path up before it touches the files, and does not give it
back when it fails. So an archive refuses paths as written that never were: a request is refused for
this reason exactly when an earlier one had the same path, whatever became of that. Otherwise it is
for the files to decide, and it succeeds as soon as nothing is in the way.

Files are left alone by a request that fails, with one exception. If a file stands where the
temporary file is to be, and the request gets that far, it is overwritten and then removed.

The files of an archive are not its own. What is in the way can come and go between two requests,
which is why a history has changes from outside as well.
-/

namespace FragmentArchive.DirectoryArchive

/-! ## Histories -/

/-- What can happen to an opened archive: it is asked for something, or the files are changed from
outside. -/
inductive Happening
  | request (r : Request)
  | change (tree : FileTree)

/-- The archive after something happened. -/
def Happening.befall : Happening → DirectoryArchive → DirectoryArchive
  | .request r, archive => r.serve archive
  | .change tree, archive => { archive with tree }

/-- The archive after everything in a history happened. -/
def afterHistory (archive : DirectoryArchive) (history : List Happening) : DirectoryArchive :=
  history.foldl (fun archive happening ↦ happening.befall archive) archive

/-- An artifact was to be stored under a path. -/
def AskedFor (p : ArchivePath) (history : List Happening) : Prop :=
  ∃ call, .request (.add call) ∈ history ∧ call.target = p

variable {archive : DirectoryArchive} {p : ArchivePath} {call : WriteCall}

/-- Changes from outside do not change what is remembered. -/
private theorem mem_written_befall_iff (happening : Happening) :
    p ∈ (happening.befall archive).written ↔ p ∈ archive.written ∨
      AskedFor p [happening] ∧ ∃ d, Destination.ofPath? p.text = some d := by
  cases happening with
  | request r =>
    cases r with
    | add call =>
      refine mem_written_add_iff.trans (or_congr_right (and_congr_left' ?_))
      constructor
      · rintro rfl
        exact ⟨call, List.mem_singleton_self _, rfl⟩
      · rintro ⟨call', hcall, rfl⟩
        obtain rfl := Request.add.inj (Happening.request.inj (List.mem_singleton.mp hcall))
        rfl
    | publish toc =>
      rw [Happening.befall, Request.serve, written_publish]
      refine (or_iff_left ?_).symm
      rintro ⟨⟨call, hcall, -⟩, -⟩
      cases List.mem_singleton.mp hcall
  | change tree =>
    refine (or_iff_left ?_).symm
    rintro ⟨⟨call, hcall, -⟩, -⟩
    cases List.mem_singleton.mp hcall

/-- **Which paths are used up**: those that were asked for, if they lead to a place inside. -/
theorem mem_written_afterHistory_iff (history : List Happening) :
    p ∈ (archive.afterHistory history).written ↔ p ∈ archive.written ∨
      AskedFor p history ∧ ∃ d, Destination.ofPath? p.text = some d := by
  induction history generalizing archive with
  | nil =>
    refine (or_iff_left ?_).symm
    rintro ⟨⟨call, hcall, -⟩, -⟩
    cases hcall
  | cons happening history ih =>
    have hasked : AskedFor p (happening :: history) ↔
        AskedFor p [happening] ∨ AskedFor p history := by
      rw [AskedFor, AskedFor, AskedFor, ← exists_or]
      refine exists_congr fun call ↦ ?_
      rw [List.mem_cons, List.mem_singleton, or_and_right]
    rw [hasked, or_and_right, ← or_assoc, ← mem_written_befall_iff happening]
    exact ih

/-! ## Refusals -/

/-- **Which requests are refused as written already.** -/
theorem add_taken_iff :
    (add call archive).answer = .error (.serialization call.target.text .taken) ↔
      (∃ d, Destination.ofPath? call.target.text = some d) ∧ call.target ∈ archive.written := by
  rcases hd : Destination.ofPath? call.target.text with _ | d
  · rw [add_of_escaping hd]
    refine iff_of_false (fun hanswer ↦ by cases hanswer) ?_
    rintro ⟨⟨d, hsome⟩, -⟩
    cases hsome
  by_cases htaken : call.target ∈ archive.written
  · rw [add_of_taken hd htaken]
    exact iff_of_true rfl ⟨⟨d, rfl⟩, htaken⟩
  · obtain ⟨result, -, hanswer⟩ := add_of_fresh hd htaken
    rw [hanswer]
    refine iff_of_false (fun hrefused ↦ ?_) fun h ↦ htaken h.2
    cases result with
    | error fault => cases hrefused
    | ok _ => cases hrefused

/-- **Which requests succeed.** -/
theorem exists_add_ok_iff :
    (∃ d, (add call archive).answer = .ok d) ↔
      call.target ∉ archive.written ∧ ∃ d, Destination.ofPath? call.target.text = some d ∧
        d.Writable archive.location archive.rootSize ∧
        d.Unobstructed archive.location archive.tree := by
  constructor
  · rintro ⟨descriptor, hanswer⟩
    obtain ⟨destination, hd, hpath, hfresh, hwrite⟩ := add_eq hanswer
    rw [hd] at hpath hfresh
    obtain ⟨hproper, -⟩ := Destination.ofPath?_eq_some hpath
    obtain ⟨tree, hwritten, -⟩ := write_eq hwrite
    exact ⟨hfresh, destination, hpath, (Destination.exists_write_iff hproper _).mp ⟨tree, hwritten⟩⟩
  · rintro ⟨hfresh, destination, hpath, hclear⟩
    obtain ⟨hproper, -⟩ := Destination.ofPath?_eq_some hpath
    obtain ⟨tree, hwritten⟩ :=
      (Destination.exists_write_iff hproper (payload call.fragment)).mpr hclear
    obtain ⟨result, hwrite, hanswer⟩ := add_of_fresh hpath hfresh
    obtain ⟨tree', hwritten', -⟩ := write_eq hwrite
    obtain ⟨rfl, -⟩ := Prod.mk.inj (hwritten'.symm.trans hwritten)
    exact ⟨_, hanswer⟩

/-- **What a request does that fails.** -/
theorem add_error {e : Error} (h : (add call archive).answer = .error e) :
    ((Request.add call).destination? archive = none → (add call archive).memory = archive) ∧
      ∀ d, (Request.add call).destination? archive = some d →
        (add call archive).memory.written = call.target :: archive.written ∧
          ∀ l bytes, (add call archive).memory.tree.look l = some (.file bytes) ↔
            archive.tree.look l = some (.file bytes) ∧
              ¬(l = archive.location ++ d.temporaryPlace ∧
                d.ReachesTemporary archive.location archive.rootSize) := by
  rw [Request.destination?]
  by_cases htaken : call.target ∈ archive.written
  · rw [if_pos htaken]
    refine ⟨fun _ ↦ ?_, fun d hd ↦ absurd hd.symm (Option.some_ne_none d)⟩
    rcases hd : Destination.ofPath? call.target.text with _ | d
    · rw [add_of_escaping hd]
      rfl
    · rw [add_of_taken hd htaken]
      rfl
  rw [if_neg htaken]
  refine ⟨fun hd ↦ by rw [add_of_escaping hd]; rfl, fun d hd ↦ ⟨written_add_of_fresh hd htaken, ?_⟩⟩
  obtain ⟨hproper, -⟩ := Destination.ofPath?_eq_some hd
  obtain ⟨result, hwrite, hanswer⟩ := add_of_fresh hd htaken
  obtain ⟨tree, hwritten, harchive⟩ := write_eq hwrite
  rw [hanswer] at h
  rw [harchive]
  cases result with
  | error fault => exact Destination.look_file_of_write_error hproper hwritten
  | ok _ => cases h

/-- **A request that fails does not leave an archive as it was.** Whatever happened since an archive
was opened, a request to store an artifact succeeds when its path was never asked for, the path
leads to a place that can be written to, and nothing is in the way there. It is refused as written
already when the path was asked for before, also in vain. And when it fails without being refused
for its path, the path counts as written from now on, and a file at its temporary place is gone if
the attempt gets that far; all other files are as they were, and there are no new ones. -/
theorem failed_request_uses_up_its_path {workingDirectory : Location} {root : String}
    {tree tree' : FileTree} {notice : Notice}
    (hopen : establish workingDirectory root tree = (.ok (archive, notice), tree'))
    (history : List Happening) (call : WriteCall) :
    let before := archive.afterHistory history
    let after := (add call before).memory
    ((∃ d, (add call before).answer = .ok d) ↔
      ¬AskedFor call.target history ∧ ∃ d, Destination.ofPath? call.target.text = some d ∧
        d.Writable before.location before.rootSize ∧
        d.Unobstructed before.location before.tree) ∧
    ((add call before).answer = .error (.serialization call.target.text .taken) ↔
      (∃ d, Destination.ofPath? call.target.text = some d) ∧ AskedFor call.target history) ∧
    ∀ e, (add call before).answer = .error e →
      ((Request.add call).destination? before = none → after = before) ∧
      ∀ d, (Request.add call).destination? before = some d →
        after.written = call.target :: before.written ∧
          ∀ l bytes, after.tree.look l = some (.file bytes) ↔
            before.tree.look l = some (.file bytes) ∧
              ¬(l = before.location ++ d.temporaryPlace ∧
                d.ReachesTemporary before.location before.rootSize) := by
  intro before after
  have hwritten : call.target ∈ before.written ↔ AskedFor call.target history ∧
      ∃ d, Destination.ofPath? call.target.text = some d := by
    refine (mem_written_afterHistory_iff history).trans (or_iff_right ?_)
    rw [(establish_ok hopen).2]
    exact List.not_mem_nil
  refine ⟨?_, ?_, fun e he ↦ add_error he⟩
  · rw [exists_add_ok_iff, hwritten]
    constructor
    · rintro ⟨hfresh, d, hd, hclear⟩
      exact ⟨fun hasked ↦ hfresh ⟨hasked, d, hd⟩, d, hd, hclear⟩
    · rintro ⟨hfresh, hd⟩
      exact ⟨fun hasked ↦ hfresh hasked.1, hd⟩
  · rw [add_taken_iff, hwritten]
    constructor
    · rintro ⟨hd, hasked, -⟩
      exact ⟨hd, hasked⟩
    · rintro ⟨hd, hasked⟩
      exact ⟨hd, hasked, hd⟩

/-- A directory stands in the way of an artifact and is taken away again. The request that came in
between failed, and so does the same one afterwards, although nothing was ever written and it would
have succeeded without the first one. -/
theorem blocked_path_stays_used_up :
    let call : WriteCall :=
      ⟨.split, .untargeted ⟨"base"⟩ .split (.ofPackage "p"), some ⟨"a.apk"⟩⟩
    let free : FileTree := .directory [("r", .directory [])]
    let blocked : FileTree := .directory [("r", .directory [("a.apk", .directory [])])]
    let archive : DirectoryArchive := ⟨"/r", ["r"], free, []⟩
    let before := archive.afterHistory [.change blocked]
    let after := archive.afterHistory [.change blocked, .request (.add call), .change free]
    establish [] "/r" .empty = (.ok (archive, .opened "/r"), free) ∧
      (∃ e, (add call before).answer = .error e) ∧
      (add call before).answer ≠ .error (.serialization "a.apk" .taken) ∧
      (add call before).memory.written = call.target :: before.written ∧
      (add call after).answer = .error (.serialization "a.apk" .taken) ∧
      ∃ d, (add call { after with written := [] }).answer = .ok d := by
  intro call free blocked archive before after
  have hopen : establish [] "/r" .empty = (.ok (archive, .opened "/r"), free) := establish_empty
  have hpath : Destination.ofPath? call.target.text = some ⟨[], "a.apk", []⟩ := by decide
  have hfailed : (add call before).answer.toOption.isNone := by decide +kernel
  have hfree : (add call { after with written := [] }).answer.toOption.isSome := by decide +kernel
  have hfirst : ¬AskedFor call.target [.change blocked] := by
    rintro ⟨call', hcall, -⟩
    cases List.mem_singleton.mp hcall
  have hsecond : AskedFor call.target
      [.change blocked, .request (.add call), .change free] :=
    ⟨call, List.mem_cons_of_mem _ List.mem_cons_self, rfl⟩
  obtain ⟨-, htaken, herror⟩ :=
    failed_request_uses_up_its_path hopen [.change blocked] call
  obtain ⟨-, htaken', -⟩ := failed_request_uses_up_its_path hopen
    [.change blocked, .request (.add call), .change free] call
  obtain ⟨e, hanswer⟩ := exists_error_of_isNone hfailed
  refine ⟨hopen, ⟨e, hanswer⟩, fun h ↦ ?_, ?_, htaken'.mpr ⟨⟨_, hpath⟩, hsecond⟩,
    exists_ok_of_isSome hfree⟩
  · exact hfirst (htaken.mp h).2
  · exact ((herror e hanswer).2 ⟨[], "a.apk", []⟩ (by decide)).1

end FragmentArchive.DirectoryArchive
