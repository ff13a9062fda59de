import FragmentArchive.Proofs.Admission
import FragmentArchive.Proofs.Consultation
import FragmentArchive.Proofs.DefaultTier
import FragmentArchive.Proofs.RequestErrors

/-!
# Errors that never arise

Three reports would mean that the parts of a run do not fit together: a variant without a number, a
fragment without an artifact, and jobs that were left out although none failed. A run has no
occasion for them. All keys of the input are numbered before it is filtered; the answers of the
writer are filed under the very fragments that are looked up; and a job is left out only after
another one has failed, whose error then counts. What is left are the errors of phases and requests
that are classified elsewhere, and none of them has the words of such a report.

A collaborator can have these words for errors of its own. Such an error of the matcher or the
modifier ends the run as it is, and so does one for the table of contents, while an error for an
artifact is told as a failure to write it.
-/

namespace FragmentArchive

/-! ## Reports of a defect -/

namespace InternalFault

/-- A report, if only by its words, that the parts of a run do not fit together. -/
def IsDefect (fault : InternalFault) : Prop :=
  (∃ key, fault.message = message (.unnumbered key)) ∨
    (∃ module, fault.message = message (.unwritten module)) ∨
    ∃ jobs, fault.message = message (.skipped jobs)

variable {fault : InternalFault}

private theorem head?_append {text rest : String} {c : Char} (h : text.toList.head? = some c) :
    (text ++ rest).toList.head? = some c := by
  rw [String.toList_append, List.head?_append, h, Option.some_or]

/-- Such a report begins with a number or with the lack of one. -/
theorem IsDefect.exists_head (h : fault.IsDefect) :
    ∃ c, fault.message.toList.head? = some c ∧ (c = 'N' ∨ c.isDigit) := by
  rcases h with ⟨key, h⟩ | ⟨module, h⟩ | ⟨jobs, h⟩
  · have hhead : (message (.unnumbered key)).toList.head? = some 'N' := head?_append (by decide)
    exact ⟨'N', h ▸ hhead, .inl rfl⟩
  · have hhead : (message (.unwritten module)).toList.head? = some 'N' :=
      head?_append (head?_append (by decide))
    exact ⟨'N', h ▸ hhead, .inl rfl⟩
  · have hdigits : Decimal.digits jobs ≠ [] := Nat.toDigits_ne_nil
    refine ⟨(Decimal.digits jobs).head hdigits, h ▸ head?_append ?_,
      .inr (Decimal.isDigit_of_mem_digits (List.head_mem hdigits))⟩
    rw [Decimal.ofNat, String.toList_ofList, List.head?_eq_some_head hdigits]

theorem not_isDefect_of_head {c : Char} (h : fault.message.toList.head? = some c)
    (hletter : c ≠ 'N' ∧ ¬c.isDigit) : ¬fault.IsDefect := by
  intro hdefect
  obtain ⟨c', hhead, hc⟩ := hdefect.exists_head
  obtain rfl := Option.some.inj (hhead.symm.trans h)
  exact hc.elim hletter.1 hletter.2

theorem not_isDefect_unknownModule (module : ModuleName) :
    ¬(unknownModule module).IsDefect :=
  not_isDefect_of_head (c := 'M') (head?_append (head?_append (by decide))) (by decide)

theorem not_isDefect_notAnAssetSlice (category : Category) (module : ModuleName) :
    ¬(notAnAssetSlice category module).IsDefect :=
  not_isDefect_of_head (c := 'U')
    (head?_append (head?_append (head?_append (head?_append (by decide))))) (by decide)

theorem not_isDefect_forbidden (mode : BuildMode) (category : Category) :
    ¬(forbidden mode category).IsDefect := by
  obtain ⟨c, hc, hletter⟩ :
      ∃ c, mode.expectation.toList.head? = some c ∧ c ≠ 'N' ∧ ¬c.isDigit := by
    cases mode <;> exact ⟨_, rfl, by decide⟩
  exact not_isDefect_of_head (head?_append (head?_append (head?_append hc))) hletter

end InternalFault

/-! ## Errors of collaborators -/

namespace Event

variable {e : Error} {es : List Event}

theorem not_refused_of_questions_eq_nil (h : questions es = []) : ¬Refused e es := by
  rw [← refused_questions, h]
  exact not_refused_nil

theorem refused_cons_noticed {event : Event} {ns : List Notice} :
    Refused e (event :: ns.map .noticed) ↔ event.refusal? = some e := by
  rw [refused_cons, or_iff_left (not_refused_of_questions_eq_nil (questions_noticed ns))]

theorem refusal?_asked {f : Fragment} {device : Device} {answer : Except Error Bool} :
    (asked f device answer).refusal? = some e ↔ answer = .error e := by
  cases answer with
  | ok b => exact ⟨nofun, nofun⟩
  | error e' => rw [refusal?, Option.some.injEq, Except.error.injEq]

theorem refusal?_modified {manifest : Manifest} {descriptor : ModificationDescriptor}
    {answer : Except Error Manifest} :
    (modified manifest descriptor answer).refusal? = some e ↔ answer = .error e := by
  cases answer with
  | ok edited => exact ⟨nofun, nofun⟩
  | error e' => rw [refusal?, Option.some.injEq, Except.error.injEq]

end Event

namespace Serializer

variable {μ ℓ π ω : Type} {s : Serializer μ ℓ π} {writer : Writer ω}
  {schedule : (jobs : Nat) → Schedule jobs} {mode : BuildMode} {device : Option Device}
  {m m' : Memory μ ℓ π ω} {es : List Event} {e : Error} {fault : InternalFault}

/-- Matcher or modifier have an error for some question. -/
def Raises (s : Serializer μ ℓ π) (e : Error) : Prop :=
  (∃ f device memory, (s.matcher.accepts f device memory).answer = .error e) ∨
    ∃ manifest descriptor memory,
      (s.modifier.modify manifest descriptor memory).answer = .error e

private theorem raises_of_only {α : Type} {kinds : List Event.Kind}
    {x : Run (Memory μ ℓ π ω) α} (hx : Run.Only kinds x) (hquestion : .question ∉ kinds) :
    Run.Always (fun _ es _ ↦ Event.Refused e es → s.Raises e) x := fun _ h ↦
  absurd h (Event.not_refused_of_questions_eq_nil (hx.questions_eq_nil hquestion rfl))

/-- Questions are refused only with errors that somebody has. -/
private theorem respects_raises (s : Serializer μ ℓ π) (writer : Writer ω) (e : Error) :
    s.Respects writer fun _ es _ ↦ Event.Refused e es → s.Raises e where
  composes := {
    nil := fun _ h ↦ absurd h Event.not_refused_nil
    append := by
      rintro _ _ _ es es' h h' ⟨event, hmem, hevent⟩
      rcases List.mem_append.mp hmem with hmem | hmem
      · exact h ⟨event, hmem, hevent⟩
      · exact h' ⟨event, hmem, hevent⟩ }
  ask f device m h :=
    .inl ⟨f, device, m.policy, Event.refusal?_asked.mp (Event.refused_cons_noticed.mp h)⟩
  modify manifest descriptor m h :=
    .inr ⟨manifest, descriptor, m.policy,
      Event.refusal?_modified.mp (Event.refused_cons_noticed.mp h)⟩
  name f := raises_of_only (Run.only_name s.assigner f) (by simp)
  store mode job := raises_of_only (s.only_store writer mode job) (by simp)
  notice n := raises_of_only (Run.only_notice (by simp) n : Run.Only [.notice] _) (by simp)

/-! ## Phases -/

/-- What is said while an artifact is written is never an internal error. -/
theorem whileWriting_ne_internal (path : ArchivePath) (e : Error) :
    Error.whileWriting path e ≠ .internal fault := by
  cases e <;> exact nofun

/-- A run that writes in one batch and ends with an internal error was refused no artifact. -/
theorem WritesInBatch.answered_of_internal {α : Type} {x : Run (Memory μ ℓ π ω) α}
    (hx : s.WritesInBatch writer mode x) (h : x m = ⟨.error (.internal fault), m', es⟩) :
    ∀ w ∈ Event.writes es, ∃ d, w.2 = .ok d := by
  rintro ⟨call, answer⟩ hw
  cases answer with
  | ok d => exact ⟨d, rfl⟩
  | error e =>
    obtain ⟨job, -, e', -, heq⟩ := hx.of_refused h hw
    exact absurd (Except.error.inj heq).symm (whileWriting_ne_internal job.2 e')

theorem not_misses_of_isDefect {fragments : List Fragment} (hdefect : fault.IsDefect) :
    ¬s.bundle.Misses fragments (.internal fault) := by
  rintro ⟨f, -, -, heq⟩
  rw [Error.internal.inj heq] at hdefect
  exact InternalFault.not_isDefect_unknownModule f.module hdefect

/-- What is reported in the fragment phase was answered to a question. -/
theorem refused_of_writeFragments {fragments : List Fragment}
    (h : s.writeFragments writer schedule fragments mode device m =
      ⟨.error (.internal fault), m', es⟩) (hdefect : fault.IsDefect) :
    Event.Refused (.internal fault) es ∧ s.Raises (.internal fault) := by
  have hraises := ((s.respects_raises writer (.internal fault)).writeFragments schedule mode device
    fragments).apply h
  have hanswered := (s.writesInBatch_writeFragments writer schedule fragments mode
    device).answered_of_internal h
  rcases writeFragments_error h hanswered with ⟨hfault, -⟩ | ⟨hmisses, -⟩
  · cases hfault with
    | mode hcheck =>
      obtain ⟨category, -, heq⟩ := BuildMode.check_eq_error_iff.mp hcheck
      rw [Error.internal.inj heq] at hdefect
      exact absurd hdefect (InternalFault.not_isDefect_forbidden mode category)
    | tier hfilter =>
      obtain ⟨-, d, -, -, stripping, tier, -, -, heq⟩ :=
        DeviceFilter.ordinary_eq_error_iff.mp hfilter
      cases heq
    | numbers hnumbers =>
      rw [VariantKey.numbering] at hnumbers
      split at hnumbers <;> cases hnumbers
    | refused hrefused => exact ⟨hrefused, hraises hrefused⟩
  · exact absurd hmisses (not_misses_of_isDefect hdefect)

/-- The same for asset slices. -/
theorem refused_of_writeSlices {slices : List Fragment}
    (h : s.writeSlices writer schedule slices mode device m =
      ⟨.error (.internal fault), m', es⟩) (hdefect : fault.IsDefect) :
    Event.Refused (.internal fault) es ∧ s.Raises (.internal fault) := by
  have hraises := ((s.respects_raises writer (.internal fault)).writeSlices schedule mode device
    slices).apply h
  have hanswered := (s.writesInBatch_writeSlices writer schedule slices mode
    device).answered_of_internal h
  rcases writeSlices_error h hanswered with ⟨hfault, -⟩ | ⟨hmisses, -⟩
  · cases hfault with
    | tier hfilter =>
      obtain ⟨d, -, -, stripping, tier, -, -, heq⟩ := DeviceFilter.slices_eq_error_iff.mp hfilter
      cases heq
    | category hslice hcategory heq =>
      rw [Error.internal.inj heq] at hdefect
      exact absurd hdefect (InternalFault.not_isDefect_notAnAssetSlice _ _)
    | refused hrefused => exact ⟨hrefused, hraises hrefused⟩
  · exact absurd hmisses (not_misses_of_isDefect hdefect)

/-! ## Runs -/

/-- What a run reports comes from one of its phases, or was said about the table of contents. -/
theorem refused_of_build {timing : Timing} {request : BuildRequest}
    (h : (s.build writer timing request m).result = .error (.internal fault))
    (hdefect : fault.IsDefect) :
    Event.Refused (.internal fault) (s.build writer timing request m).events ∧
        s.Raises (.internal fault) ∨
      ∃ toc archive,
        .published toc (.error (.internal fault)) ∈ (s.build writer timing request m).events ∧
          (writer.publish toc archive).answer = .error (.internal fault) := by
  rcases s.build_outcome writer timing request m with ⟨e, m', fes, hfragments, hbuild⟩ |
    ⟨variants, m₁, fes, e, m', ses, hfragments, hslices, hbuild⟩ |
    ⟨variants, m₁, fes, sets, m₂, ses, toc, reply, ns, -, -, -, rfl, hbuild⟩
  · rw [hbuild] at h ⊢
    obtain rfl := Except.error.inj h
    obtain ⟨hrefused, hraises⟩ := refused_of_writeFragments hfragments hdefect
    exact .inl ⟨Event.refused_cons.mpr (.inr hrefused), hraises⟩
  · rw [hbuild] at h ⊢
    obtain rfl := Except.error.inj h
    obtain ⟨⟨event, hmem, hevent⟩, hraises⟩ := refused_of_writeSlices hslices hdefect
    exact .inl ⟨⟨event, by simp [hmem], hevent⟩, hraises⟩
  · rw [hbuild] at h ⊢
    cases hanswer : (writer.publish toc m₂.archive).answer with
    | ok stored =>
      rw [hanswer] at h
      cases h
    | error e =>
      rw [hanswer] at h
      obtain rfl := Except.error.inj h
      exact .inr ⟨toc, m₂.archive, by simp, hanswer⟩

/-- **A defect is never reported by a run of its own accord.** When a run or one of its phases ends
with such a report, under whatever schedule, then matcher or modifier answered a question with it,
or the writer refused the table of contents with it. -/
theorem defects_are_answers (s : Serializer μ ℓ π) (writer : Writer ω) (mode : BuildMode)
    (device : Option Device) (m : Memory μ ℓ π ω) {fault : InternalFault}
    (hdefect : fault.IsDefect) :
    (∀ (schedule : (jobs : Nat) → Schedule jobs) fragments,
      let out := s.writeFragments writer schedule fragments mode device m
      out.result = .error (.internal fault) →
        Event.Refused (.internal fault) out.events ∧ s.Raises (.internal fault)) ∧
    (∀ (schedule : (jobs : Nat) → Schedule jobs) slices,
      let out := s.writeSlices writer schedule slices mode device m
      out.result = .error (.internal fault) →
        Event.Refused (.internal fault) out.events ∧ s.Raises (.internal fault)) ∧
    ∀ timing request,
      let out := s.build writer timing request m
      out.result = .error (.internal fault) →
        Event.Refused (.internal fault) out.events ∧ s.Raises (.internal fault) ∨
          ∃ toc archive, .published toc (.error (.internal fault)) ∈ out.events ∧
            (writer.publish toc archive).answer = .error (.internal fault) := by
  refine ⟨fun schedule fragments h ↦ ?_, fun schedule slices h ↦ ?_,
    fun timing request h ↦ refused_of_build h hdefect⟩
  · rcases hout : s.writeFragments writer schedule fragments mode device m with ⟨r, m', es⟩
    rw [hout] at h
    obtain rfl : r = .error (.internal fault) := h
    exact refused_of_writeFragments hout hdefect
  · rcases hout : s.writeSlices writer schedule slices mode device m with ⟨r, m', es⟩
    rw [hout] at h
    obtain rfl : r = .error (.internal fault) := h
    exact refused_of_writeSlices hout hdefect

/-- A matcher can have the words of such a report, and then they are the answer of a run. -/
theorem matcher_can_report_skipped_tasks :
    let f : Fragment := { Fragment.untargeted .base .split (.ofPackage "p") with isMaster := true }
    let fault : InternalFault := .reported "2 tasks were skipped without a recorded failure"
    let s := { plain (Bundle.ofPackage "p") with
      matcher := ⟨fun _ _ ↦ .silent (.error (.internal fault))⟩ }
    let out := s.build Writer.echo .inOrder ⟨[f], [], .default, some default, default, []⟩
      ⟨(), (), ∅, ()⟩
    fault.IsDefect ∧ out.result = .error (.internal fault) ∧
      Event.Refused (.internal fault) out.events := by
  intro f fault s out
  have hdefect : fault.IsDefect := .inr (.inr ⟨2, by decide⟩)
  have hresult : out.result = .error (.internal fault) := rfl
  refine ⟨hdefect, hresult, ?_⟩
  rcases (defects_are_answers s Writer.echo .default none ⟨(), (), ∅, ()⟩ hdefect).2.2 .inOrder
    ⟨[f], [], .default, some default, default, []⟩ hresult with
    ⟨hrefused, -⟩ | ⟨toc, archive, -, hanswer⟩
  · exact hrefused
  · cases hanswer

end Serializer

end FragmentArchive
