import FragmentArchive.Proofs.Comparison

/-!
# Consulting collaborators

A run does nothing but consult its collaborators, one after the other. A relation between what is
remembered at the beginning, what happens, and what is remembered in the end therefore holds of a
whole phase as soon as it holds of every single consultation and is handed on by sequences. An
artifact is stored and announced in one step here, because some relations hold of the two together
and of neither of them alone.
-/

namespace FragmentArchive.Serializer

variable {μ ℓ π ω : Type}

/-- A relation that holds of every consultation of a serializer's collaborators and of a writer. -/
structure Respects (s : Serializer μ ℓ π) (writer : Writer ω)
    (R : Memory μ ℓ π ω → List Event → Memory μ ℓ π ω → Prop) : Prop where
  composes : Run.Composes R
  ask : ∀ f device, Run.Always R (Run.ask s.matcher f device)
  modify : ∀ manifest descriptor, Run.Always R (Run.modify s.modifier manifest descriptor)
  name : ∀ f, Run.Always R (Run.name s.assigner f)
  store : ∀ mode job, Run.Always R (s.store writer mode job)
  notice : ∀ n, Run.Always R (Run.notice n)

variable {s : Serializer μ ℓ π} {writer : Writer ω}
  {R : Memory μ ℓ π ω → List Event → Memory μ ℓ π ω → Prop}

/-- What holds of storing and of announcing by themselves holds of both together. -/
theorem always_store (hR : Run.Composes R) (hadd : ∀ call, Run.Always R (Run.add writer call))
    (hnotify : ∀ descriptor, Run.Always R (Run.notify s.listener descriptor))
    (hnotice : ∀ n, Run.Always R (Run.notice n)) (mode : BuildMode) (job : Job) :
    Run.Always R (s.store writer mode job) := by
  rw [store_eq]
  refine .bind hR ((hadd _).mapError _) fun descriptor ↦ ?_
  have hwritten : Run.Always R (do
      Run.notice (.written s.options.verbose descriptor.path job.1.category)
      return descriptor : Run (Memory μ ℓ π ω) ArtifactDescriptor) :=
    .bind hR (hnotice _) fun _ ↦ Run.always_ofExcept hR (.ok descriptor)
  refine .bind hR (hnotify descriptor) fun heard ↦ ?_
  rcases heard with e | _
  · exact .bind hR (hnotice _) fun _ ↦ hwritten
  · exact hwritten

namespace Respects

variable (h : s.Respects writer R)

include h

/-- A relation of this kind is inherited like one that compares the run with itself. -/
theorem parallels : s.Parallels s fun _ (x _ : Run (Memory μ ℓ π ω) _) ↦ Run.Always R x where
  congruence := {
    ofExcept := fun r ↦ Run.always_ofExcept h.composes r
    bind := fun hx hf ↦ hx.bind h.composes hf }
  modules := rfl
  first := rfl
  modify := h.modify
  name := h.name
  notice := h.notice

/-! ## Phases -/

variable (schedule : (jobs : Nat) → Schedule jobs) (mode : BuildMode) (device : Option Device)

theorem writeFragments (fragments : List Fragment) :
    Run.Always R (s.writeFragments writer schedule fragments mode device) :=
  h.parallels.writeFragments writer writer schedule schedule rfl
    (fun filter _ ↦ h.parallels.keeps_of_ask h.ask filter)
    (fun _ ↦ Schedule.always_runAll h.composes (h.store mode)) fragments

theorem writeSlices (slices : List Fragment) :
    Run.Always R (s.writeSlices writer schedule slices mode device) :=
  h.parallels.writeSlices writer writer schedule schedule rfl
    (fun filter _ ↦ h.parallels.keeps_of_ask h.ask filter)
    (fun _ ↦ Schedule.always_runAll h.composes (h.store mode)) slices

/-- A build consults the same collaborators, and besides it tells the path assigner that it begins
and hands over the table of contents. -/
theorem build (hstart : Run.Always R (Run.startNaming s.assigner))
    (hpublish : ∀ toc, Run.Always R (Run.publish writer toc)) (timing : Timing)
    (request : BuildRequest) : Run.Always R (s.build writer timing request) :=
  h.parallels.build writer writer rfl h.ask timing timing
    (fun mode _ ↦ Schedule.always_runAll h.composes (h.store mode))
    (fun mode _ ↦ Schedule.always_runAll h.composes (h.store mode)) hstart hpublish request

end Respects

end FragmentArchive.Serializer
