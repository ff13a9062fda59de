import FragmentArchive.Run

/-!
# Taking runs apart

A run is composed by `bind`, and its outcome is determined by the outcomes of its parts: memories
are handed on, events are put one behind the other, and the first error ends everything. The
lemmas here say so once, for whole outcomes rather than for results alone, so that later proofs
take a run apart without looking into `bind`.

## Kinds of events

Most of what is said about a run concerns one collaborator only: which artifacts the writer was
asked for, which names were given. For this the events are sorted by kinds. What a part of a run
never talks about is recorded as a list of the kinds that it *does* use, because that list survives
composition and gives all the negative facts at once.
-/

namespace FragmentArchive

/-! ## Kinds -/

/-- What an event is about. -/
inductive Event.Kind
  | question
  | naming
  | write
  | hearing
  | publication
  | notice
deriving DecidableEq, Repr

namespace Event

/-- Questions go to the matcher and to the modifier. -/
def kind : Event → Kind
  | asked .. | modified .. => .question
  | named .. => .naming
  | added .. => .write
  | notified .. => .hearing
  | published .. => .publication
  | noticed _ => .notice

/-- The fragment that is named by an event, with its path. -/
def naming? : Event → Option (Fragment × ArchivePath)
  | named f path => some (f, path)
  | _ => none

/-- The request to store an artifact, with the writer's answer. -/
def write? : Event → Option (WriteCall × Except Error ArtifactDescriptor)
  | added call answer => some (call, answer)
  | _ => none

/-- The artifact that the listener is told about. -/
def hearing? : Event → Option ArtifactDescriptor
  | notified descriptor _ => some descriptor
  | _ => none

/-- The request to store a table of contents, with the writer's answer. -/
def publication? : Event → Option (TableOfContents × Except Error Unit)
  | published toc answer => some (toc, answer)
  | _ => none

/-- The questions about fragments and manifests. -/
abbrev questions (es : List Event) : List Event := es.filter (·.kind = .question)

/-- The names that were given. -/
abbrev namings (es : List Event) : List (Fragment × ArchivePath) := es.filterMap naming?

/-- The artifacts that were to be stored. -/
abbrev writes (es : List Event) : List (WriteCall × Except Error ArtifactDescriptor) :=
  es.filterMap write?

/-- The artifacts that the listener was told about. -/
abbrev hearings (es : List Event) : List ArtifactDescriptor := es.filterMap hearing?

/-- The tables of contents that were to be stored. -/
abbrev publications (es : List Event) : List (TableOfContents × Except Error Unit) :=
  es.filterMap publication?

@[simp] theorem questions_append (es es' : List Event) :
    questions (es ++ es') = questions es ++ questions es' := List.filter_append ..

@[simp] theorem namings_append (es es' : List Event) :
    namings (es ++ es') = namings es ++ namings es' := List.filterMap_append

@[simp] theorem writes_append (es es' : List Event) :
    writes (es ++ es') = writes es ++ writes es' := List.filterMap_append

@[simp] theorem hearings_append (es es' : List Event) :
    hearings (es ++ es') = hearings es ++ hearings es' := List.filterMap_append

@[simp] theorem publications_append (es es' : List Event) :
    publications (es ++ es') = publications es ++ publications es' := List.filterMap_append

theorem questions_eq_nil {es : List Event} (h : ∀ e ∈ es, e.kind ≠ .question) :
    questions es = [] := by
  rw [questions, List.filter_eq_nil_iff]
  intro e he
  simpa using h e he

theorem namings_eq_nil {es : List Event} (h : ∀ e ∈ es, e.kind ≠ .naming) : namings es = [] := by
  rw [namings, List.filterMap_eq_nil_iff]
  intro e he
  cases e with
  | named f path => exact absurd rfl (h _ he)
  | _ => rfl

theorem writes_eq_nil {es : List Event} (h : ∀ e ∈ es, e.kind ≠ .write) : writes es = [] := by
  rw [writes, List.filterMap_eq_nil_iff]
  intro e he
  cases e with
  | added call answer => exact absurd rfl (h _ he)
  | _ => rfl

theorem hearings_eq_nil {es : List Event} (h : ∀ e ∈ es, e.kind ≠ .hearing) :
    hearings es = [] := by
  rw [hearings, List.filterMap_eq_nil_iff]
  intro e he
  cases e with
  | notified descriptor answer => exact absurd rfl (h _ he)
  | _ => rfl

theorem publications_eq_nil {es : List Event} (h : ∀ e ∈ es, e.kind ≠ .publication) :
    publications es = [] := by
  rw [publications, List.filterMap_eq_nil_iff]
  intro e he
  cases e with
  | published toc answer => exact absurd rfl (h _ he)
  | _ => rfl

theorem mem_publications {es : List Event} {toc : TableOfContents} {answer : Except Error Unit} :
    (toc, answer) ∈ publications es ↔ .published toc answer ∈ es := by
  rw [publications, List.mem_filterMap]
  constructor
  · rintro ⟨e, he, heq⟩
    cases e with
    | published toc' answer' =>
      obtain ⟨rfl, rfl⟩ := Prod.mk.inj (Option.some.inj heq)
      exact he
    | _ => cases heq
  · intro h
    exact ⟨_, h, rfl⟩

theorem kind_of_mem_noticed {ns : List Notice} {e : Event} (h : e ∈ ns.map noticed) :
    e.kind = .notice := by
  obtain ⟨n, -, rfl⟩ := List.mem_map.mp h
  rfl

@[simp] theorem questions_noticed (ns : List Notice) : questions (ns.map noticed) = [] :=
  questions_eq_nil fun _ he ↦ by simp [kind_of_mem_noticed he]

@[simp] theorem namings_noticed (ns : List Notice) : namings (ns.map noticed) = [] :=
  namings_eq_nil fun _ he ↦ by simp [kind_of_mem_noticed he]

@[simp] theorem writes_noticed (ns : List Notice) : writes (ns.map noticed) = [] :=
  writes_eq_nil fun _ he ↦ by simp [kind_of_mem_noticed he]

@[simp] theorem hearings_noticed (ns : List Notice) : hearings (ns.map noticed) = [] :=
  hearings_eq_nil fun _ he ↦ by simp [kind_of_mem_noticed he]

@[simp] theorem publications_noticed (ns : List Notice) : publications (ns.map noticed) = [] :=
  publications_eq_nil fun _ he ↦ by simp [kind_of_mem_noticed he]

end Event

/-! ## Composition -/

namespace Run

variable {σ α β : Type} {x : Run σ α} {f : α → Run σ β} {s s' t : σ} {a : α} {b : β} {e : Error}
  {es : List Event}

theorem pure_apply (a : α) (s : σ) : (pure a : Run σ α) s = ⟨.ok a, s, []⟩ := rfl

theorem bind_of_ok (h : x s = ⟨.ok a, s', es⟩) :
    (x >>= f) s = { f a s' with events := es ++ (f a s').events } := by
  change Run.bind x f s = _
  rw [Run.bind, h]

theorem bind_of_error (h : x s = ⟨.error e, s', es⟩) : (x >>= f) s = ⟨.error e, s', es⟩ := by
  change Run.bind x f s = _
  rw [Run.bind, h]

/-- What comes of a composed run after its first part has succeeded. -/
theorem exists_rest_of_bind {r : Except Error β} {es₁ : List Event}
    (hx : x s = ⟨.ok a, s', es₁⟩) (h : (x >>= f) s = ⟨r, t, es⟩) :
    ∃ es₂, f a s' = ⟨r, t, es₂⟩ ∧ es = es₁ ++ es₂ := by
  rw [bind_of_ok hx] at h
  rcases hf : f a s' with ⟨r', t', es₂⟩
  rw [hf] at h
  obtain ⟨rfl, rfl, rfl⟩ := Outcome.mk.inj h
  exact ⟨es₂, rfl, rfl⟩

/-- A composed run succeeds exactly when both of its parts do. -/
theorem bind_ok_iff : (x >>= f) s = ⟨.ok b, t, es⟩ ↔
    ∃ a s' es₁ es₂, x s = ⟨.ok a, s', es₁⟩ ∧ f a s' = ⟨.ok b, t, es₂⟩ ∧ es = es₁ ++ es₂ := by
  constructor
  · intro h
    rcases hx : x s with ⟨r, s', es₁⟩
    cases r with
    | error e =>
      rw [bind_of_error hx] at h
      simp at h
    | ok a =>
      rw [bind_of_ok hx] at h
      rcases hf : f a s' with ⟨r, t', es₂⟩
      rw [hf] at h
      obtain ⟨rfl, rfl, rfl⟩ := Outcome.mk.inj h
      exact ⟨a, s', es₁, es₂, rfl, hf, rfl⟩
  · rintro ⟨a, s', es₁, es₂, hx, hf, rfl⟩
    rw [bind_of_ok hx, hf]

/-- A composed run fails when its first part does, or when the second one does after the first. -/
theorem bind_error_iff : (x >>= f) s = ⟨.error e, t, es⟩ ↔ x s = ⟨.error e, t, es⟩ ∨
    ∃ a s' es₁ es₂, x s = ⟨.ok a, s', es₁⟩ ∧ f a s' = ⟨.error e, t, es₂⟩ ∧ es = es₁ ++ es₂ := by
  rcases hx : x s with ⟨e' | a, s', es₁⟩
  · rw [bind_of_error hx]
    simp
  · rw [bind_of_ok hx]
    rcases hf : f a s' with ⟨r, t', es₂⟩
    constructor
    · intro h
      obtain ⟨rfl, rfl, rfl⟩ := Outcome.mk.inj h
      exact .inr ⟨a, s', es₁, es₂, rfl, hf, rfl⟩
    · rintro (h | ⟨_, _, _, _, hok, herror, rfl⟩)
      · cases (Outcome.mk.inj h).1
      · obtain ⟨ha, rfl, rfl⟩ := Outcome.mk.inj hok
        obtain rfl := Except.ok.inj ha
        obtain ⟨rfl, rfl, rfl⟩ := Outcome.mk.inj (hf.symm.trans herror)
        rfl

private theorem bind_pure_eq (x : Run σ α) : x >>= pure = x := by
  funext s
  rcases h : x s with ⟨_ | a, s', es⟩
  · rw [bind_of_error h]
  · rw [bind_of_ok h, pure_apply, List.append_nil]

private theorem pure_bind_eq (a : α) (f : α → Run σ β) : pure a >>= f = f a := by
  funext s
  rw [bind_of_ok (pure_apply a s)]
  rfl

private theorem bind_bind_eq {γ : Type} (x : Run σ α) (f : α → Run σ β) (g : β → Run σ γ) :
    x >>= f >>= g = x >>= fun a ↦ f a >>= g := by
  funext s
  rcases hx : x s with ⟨_ | a, s', es⟩
  · rw [bind_of_error (bind_of_error hx), bind_of_error hx]
  · rw [bind_of_ok hx]
    rcases hf : f a s' with ⟨_ | b, t, es'⟩
    · rw [bind_of_error ((bind_of_ok hx).trans (by rw [hf])), bind_of_error hf]
    · rw [bind_of_ok ((bind_of_ok hx).trans (by rw [hf])), bind_of_ok hf, List.append_assoc]

instance : LawfulMonad (Run σ) := .mk' (Run σ) bind_pure_eq pure_bind_eq bind_bind_eq

theorem ofExcept_ok_iff {r : Except Error α} :
    (ofExcept r : Run σ α) s = ⟨.ok a, t, es⟩ ↔ r = .ok a ∧ t = s ∧ es = [] := by
  rw [ofExcept, Outcome.mk.injEq, eq_comm (a := s), eq_comm (a := ([] : List Event))]

theorem ofExcept_error_iff {r : Except Error α} :
    (ofExcept r : Run σ α) s = ⟨.error e, t, es⟩ ↔ r = .error e ∧ t = s ∧ es = [] := by
  rw [ofExcept, Outcome.mk.injEq, eq_comm (a := s), eq_comm (a := ([] : List Event))]

/-! ## From the beginning to the end -/

/-- A relation holds between the memory at the beginning of a run, what happens, and the memory at
the end. -/
def Always (R : σ → List Event → σ → Prop) (x : Run σ α) : Prop :=
  ∀ s, R s (x s).events (x s).memory

/-- A relation holds of a sequence of runs when it does of its parts. -/
structure Composes (R : σ → List Event → σ → Prop) : Prop where
  nil : ∀ s, R s [] s
  append : ∀ {s s' s'' es es'}, R s es s' → R s' es' s'' → R s (es ++ es') s''

variable {R : σ → List Event → σ → Prop} (hR : Composes R)

theorem Always.apply {r : Except Error α} (hx : Always R x) (h : x s = ⟨r, s', es⟩) :
    R s es s' := by
  have hs := hx s
  rwa [h] at hs

theorem Always.mapError (g : Error → Error) (hx : Always R x) : Always R (x.mapError g) := hx

include hR

theorem always_ofExcept (r : Except Error α) : Always R (ofExcept r : Run σ α) := hR.nil

theorem Always.bind (hx : Always R x) (hf : ∀ a, Always R (f a)) : Always R (x >>= f) := by
  intro s
  rcases h : x s with ⟨_ | a, s', es⟩
  · rw [bind_of_error h]
    exact hx.apply h
  · rw [bind_of_ok h]
    exact hR.append (hx.apply h) (hf a s')

theorem Always.each {f : α → Run σ β} (hf : ∀ a, Always R (f a)) (as : List α) :
    Always R (Run.each f as) := by
  induction as with
  | nil => exact always_ofExcept hR (.ok [])
  | cons a as ih =>
    exact (hf a).bind hR fun b ↦ ih.bind hR fun bs ↦ always_ofExcept hR (.ok (b :: bs))

end Run

/-! ## What a run can talk about -/

section

variable {μ ℓ π ω : Type} {kinds kinds' : List Event.Kind} {m m' m'' : Memory μ ℓ π ω}
  {es es' : List Event}

/-- Whatever happens is of one of the given kinds, and collaborators that are asked nothing of
their kind remember what they did before. -/
structure Memory.Within (kinds : List Event.Kind) (m : Memory μ ℓ π ω) (es : List Event)
    (m' : Memory μ ℓ π ω) : Prop where
  kind_mem : ∀ e ∈ es, e.kind ∈ kinds
  policy : .question ∉ kinds → m'.policy = m.policy
  listener : .hearing ∉ kinds → m'.listener = m.listener
  naming : .naming ∉ kinds → m'.naming = m.naming
  archive : .write ∉ kinds → .publication ∉ kinds → m'.archive = m.archive

theorem Memory.composes_within :
    Run.Composes (Memory.Within kinds : Memory μ ℓ π ω → List Event → Memory μ ℓ π ω → Prop) where
  nil _ := {
    kind_mem := fun _ he ↦ absurd he List.not_mem_nil
    policy := fun _ ↦ rfl
    listener := fun _ ↦ rfl
    naming := fun _ ↦ rfl
    archive := fun _ _ ↦ rfl }
  append h h' := {
    kind_mem := fun e he ↦ (List.mem_append.mp he).elim (h.kind_mem e) (h'.kind_mem e)
    policy := fun hk ↦ (h'.policy hk).trans (h.policy hk)
    listener := fun hk ↦ (h'.listener hk).trans (h.listener hk)
    naming := fun hk ↦ (h'.naming hk).trans (h.naming hk)
    archive := fun hk hk' ↦ (h'.archive hk hk').trans (h.archive hk hk') }

theorem Memory.Within.mono (h : m.Within kinds es m') (hkinds : ∀ k ∈ kinds, k ∈ kinds') :
    m.Within kinds' es m' where
  kind_mem e he := hkinds _ (h.kind_mem e he)
  policy hk := h.policy fun hmem ↦ hk (hkinds _ hmem)
  listener hk := h.listener fun hmem ↦ hk (hkinds _ hmem)
  naming hk := h.naming fun hmem ↦ hk (hkinds _ hmem)
  archive hk hk' := h.archive (fun hmem ↦ hk (hkinds _ hmem)) fun hmem ↦ hk' (hkinds _ hmem)

end

namespace Run

variable {μ ℓ π ω α β : Type}

/-- A run only consults the collaborators that are asked about things of the given kinds. -/
def Only (kinds : List Event.Kind) (x : Run (Memory μ ℓ π ω) α) : Prop :=
  Always (Memory.Within kinds) x

variable {kinds : List Event.Kind} {x : Run (Memory μ ℓ π ω) α}
  {f : α → Run (Memory μ ℓ π ω) β} {m m' : Memory μ ℓ π ω} {es : List Event} {r : Except Error α}

theorem Only.kind_ne {k : Event.Kind} (hx : Only kinds x) (hk : k ∉ kinds)
    (h : x m = ⟨r, m', es⟩) : ∀ e ∈ es, e.kind ≠ k := by
  rintro e he rfl
  exact hk ((Always.apply hx h).kind_mem e he)

theorem Only.questions_eq_nil (hx : Only kinds x) (hk : .question ∉ kinds)
    (h : x m = ⟨r, m', es⟩) : Event.questions es = [] :=
  Event.questions_eq_nil (hx.kind_ne hk h)

theorem Only.namings_eq_nil (hx : Only kinds x) (hk : .naming ∉ kinds)
    (h : x m = ⟨r, m', es⟩) : Event.namings es = [] :=
  Event.namings_eq_nil (hx.kind_ne hk h)

theorem Only.writes_eq_nil (hx : Only kinds x) (hk : .write ∉ kinds)
    (h : x m = ⟨r, m', es⟩) : Event.writes es = [] :=
  Event.writes_eq_nil (hx.kind_ne hk h)

theorem Only.hearings_eq_nil (hx : Only kinds x) (hk : .hearing ∉ kinds)
    (h : x m = ⟨r, m', es⟩) : Event.hearings es = [] :=
  Event.hearings_eq_nil (hx.kind_ne hk h)

theorem Only.publications_eq_nil (hx : Only kinds x) (hk : .publication ∉ kinds)
    (h : x m = ⟨r, m', es⟩) : Event.publications es = [] :=
  Event.publications_eq_nil (hx.kind_ne hk h)

theorem only_ofExcept (r : Except Error α) :
    Only kinds (ofExcept r : Run (Memory μ ℓ π ω) α) :=
  always_ofExcept Memory.composes_within r

theorem only_pure (a : α) : Only kinds (pure a : Run (Memory μ ℓ π ω) α) := only_ofExcept (.ok a)

theorem only_fail (e : Error) : Only kinds (fail e : Run (Memory μ ℓ π ω) α) :=
  only_ofExcept (.error e)

theorem Only.bind (hx : Only kinds x) (hf : ∀ a, Only kinds (f a)) : Only kinds (x >>= f) :=
  Always.bind Memory.composes_within hx hf

theorem Only.mapError (g : Error → Error) (hx : Only kinds x) : Only kinds (x.mapError g) :=
  Always.mapError g hx

theorem Only.each (hf : ∀ a, Only kinds (f a)) (as : List α) : Only kinds (Run.each f as) :=
  Always.each Memory.composes_within hf as

theorem Only.mono {kinds' : List Event.Kind} (hx : Only kinds x) (h : ∀ k ∈ kinds, k ∈ kinds') :
    Only kinds' x := fun m ↦ (hx m).mono h

/-- When nothing is written in front of a run, what can be said of its requests can be said of all
of them. -/
theorem Only.writes_bind {P : List (WriteCall × Except Error ArtifactDescriptor) → Prop}
    (hx : Only kinds x) (hk : .write ∉ kinds) (hnil : P [])
    (hf : ∀ a m, P (Event.writes (f a m).events)) (m : Memory μ ℓ π ω) :
    P (Event.writes ((x >>= f) m).events) := by
  rcases h : x m with ⟨e | a, m', es⟩
  · rw [bind_of_error h, hx.writes_eq_nil hk h]
    exact hnil
  · rw [bind_of_ok h, Event.writes_append, hx.writes_eq_nil hk h]
    exact hf a m'

/-- When no questions come after a run, all questions are its own. -/
theorem questions_bind_of_only (hf : ∀ a, Only kinds (f a)) (hk : .question ∉ kinds)
    (m : Memory μ ℓ π ω) :
    Event.questions ((x >>= f) m).events = Event.questions (x m).events := by
  rcases hx : x m with ⟨_ | a, m', es⟩
  · rw [bind_of_error hx]
  · have hquiet : Event.questions (f a m').events = [] := (hf a).questions_eq_nil hk rfl
    rw [bind_of_ok hx, Event.questions_append, hquiet, List.append_nil]

theorem only_notice (h : .notice ∈ kinds) (n : Notice) :
    Only kinds (notice n : Run (Memory μ ℓ π ω) Unit) := by
  intro m
  have hkind : ∀ e ∈ [Event.noticed n], e.kind ∈ kinds := by
    intro e he
    rw [List.mem_singleton.mp he]
    exact h
  exact ⟨hkind, fun _ ↦ rfl, fun _ ↦ rfl, fun _ ↦ rfl, fun _ _ ↦ rfl⟩

end Run

/-! ## Consulting a collaborator -/

namespace Run

variable {μ ℓ π ω : Type}

private theorem kind_mem_of_mem_cons {kinds : List Event.Kind} {e e' : Event} {ns : List Notice}
    (h : e.kind ∈ kinds) (hn : .notice ∈ kinds) (he : e' ∈ e :: ns.map .noticed) :
    e'.kind ∈ kinds := by
  rcases List.mem_cons.mp he with rfl | he
  · exact h
  · rw [Event.kind_of_mem_noticed he]
    exact hn

theorem only_ask (matcher : Matcher μ) (f : Fragment) (device : Device) :
    Only [.question, .notice] (ask matcher f device : Run (Memory μ ℓ π ω) Bool) := fun _ ↦ {
  kind_mem := fun _ he ↦ kind_mem_of_mem_cons (by simp [Event.kind]) (by simp) he
  policy := fun h ↦ absurd (by simp) h
  listener := fun _ ↦ rfl
  naming := fun _ ↦ rfl
  archive := fun _ _ ↦ rfl }

theorem only_modify (modifier : Modifier μ) (manifest : Manifest)
    (descriptor : ModificationDescriptor) : Only [.question, .notice]
      (modify modifier manifest descriptor : Run (Memory μ ℓ π ω) Manifest) := fun _ ↦ {
  kind_mem := fun _ he ↦ kind_mem_of_mem_cons (by simp [Event.kind]) (by simp) he
  policy := fun h ↦ absurd (by simp) h
  listener := fun _ ↦ rfl
  naming := fun _ ↦ rfl
  archive := fun _ _ ↦ rfl }

theorem only_name (assigner : PathAssigner π) (f : Fragment) :
    Only [.naming] (name assigner f : Run (Memory μ ℓ π ω) ArchivePath) := fun _ ↦ {
  kind_mem := fun e he ↦ by
    rw [List.mem_singleton.mp he]
    simp [Event.kind]
  policy := fun _ ↦ rfl
  listener := fun _ ↦ rfl
  naming := fun h ↦ absurd (by simp) h
  archive := fun _ _ ↦ rfl }

theorem only_add (writer : Writer ω) (call : WriteCall) : Only [.write, .notice]
    (add writer call : Run (Memory μ ℓ π ω) ArtifactDescriptor) := fun _ ↦ {
  kind_mem := fun _ he ↦ kind_mem_of_mem_cons (by simp [Event.kind]) (by simp) he
  policy := fun _ ↦ rfl
  listener := fun _ ↦ rfl
  naming := fun _ ↦ rfl
  archive := fun h ↦ absurd (by simp) h }

theorem only_publish (writer : Writer ω) (toc : TableOfContents) : Only [.publication, .notice]
    (publish writer toc : Run (Memory μ ℓ π ω) Unit) := fun _ ↦ {
  kind_mem := fun _ he ↦ kind_mem_of_mem_cons (by simp [Event.kind]) (by simp) he
  policy := fun _ ↦ rfl
  listener := fun _ ↦ rfl
  naming := fun _ ↦ rfl
  archive := fun _ h ↦ absurd (by simp) h }

theorem only_notify (listener : Listener ℓ) (descriptor : ArtifactDescriptor) :
    Only [.hearing, .notice]
      (notify listener descriptor : Run (Memory μ ℓ π ω) (Except Error Unit)) := fun _ ↦ {
  kind_mem := fun _ he ↦ kind_mem_of_mem_cons (by simp [Event.kind]) (by simp) he
  policy := fun _ ↦ rfl
  listener := fun h ↦ absurd (by simp) h
  naming := fun _ ↦ rfl
  archive := fun _ _ ↦ rfl }

end Run

end FragmentArchive
