import FragmentArchive.Collaborator

/-!
# Runs

A run is a computation that consults collaborators. Its outcome has three parts: a result, which
may be an error; what the collaborators remember afterwards; and the *events*, every question that
was asked together with its answer, in the order of asking. Memories and events are also there when
the result is an error, since what was asked before a failure was asked.

Events are never looked at by a run itself, so they can be recorded without changing anything: they
are only ever appended, and the events of a sequence are the events of its parts.
-/

namespace FragmentArchive

/-- A question to a collaborator with its answer, or a notice. -/
inductive Event
  | asked (fragment : Fragment) (device : Device) (answer : Except Error Bool)
  | modified (manifest : Manifest) (descriptor : ModificationDescriptor)
    (answer : Except Error Manifest)
  | named (fragment : Fragment) (path : ArchivePath)
  | added (call : WriteCall) (answer : Except Error ArtifactDescriptor)
  | notified (descriptor : ArtifactDescriptor) (answer : Except Error Unit)
  | published (toc : TableOfContents) (answer : Except Error Unit)
  | noticed (notice : Notice)

/-- What a run leads to. -/
structure Outcome (σ α : Type) where
  result : Except Error α
  memory : σ
  events : List Event

/-- A computation that consults collaborators with the memory `σ`. -/
def Run (σ α : Type) : Type := σ → Outcome σ α

namespace Run

variable {σ α β : Type}

/-- Does nothing. -/
protected def pure (a : α) : Run σ α := fun s ↦ ⟨.ok a, s, []⟩

/-- Ends with an error. -/
def fail (e : Error) : Run σ α := fun s ↦ ⟨.error e, s, []⟩

/-- Goes on with the result of a run, if it has one. -/
protected def bind (x : Run σ α) (f : α → Run σ β) : Run σ β := fun s ↦
  match (x s).result with
  | .ok a => { f a (x s).memory with events := (x s).events ++ (f a (x s).memory).events }
  | .error e => ⟨.error e, (x s).memory, (x s).events⟩

instance : Monad (Run σ) where
  pure := Run.pure
  bind := Run.bind

/-- A computation that consults nobody. -/
def ofExcept (x : Except Error α) : Run σ α := fun s ↦ ⟨x, s, []⟩

/-- Turns an error into a result, so that one can go on after it. -/
def attempt (x : Run σ α) : Run σ (Except Error α) := fun s ↦
  ⟨.ok (x s).result, (x s).memory, (x s).events⟩

/-- Replaces the error of a run. -/
def mapError (f : Error → Error) (x : Run σ α) : Run σ α := fun s ↦
  { x s with result := (x s).result.mapError f }

/-- Does the same with each element of a list. -/
def each (f : α → Run σ β) : List α → Run σ (List β)
  | [] => pure []
  | a :: as => do
    let b ← f a
    let bs ← each f as
    return b :: bs

/-- Tells something. -/
def notice (n : Notice) : Run σ Unit := fun s ↦ ⟨.ok (), s, [.noticed n]⟩

end Run

/-! ## Memories

The memories of all collaborators of a build. -/

/-- What the collaborators of a build remember: matcher and modifier together, and the others each
for itself. -/
structure Memory (μ ℓ π ω : Type) where
  policy : μ
  listener : ℓ
  naming : π
  archive : ω

namespace Run

variable {μ ℓ π ω : Type}

/-- Asks the matcher whether a device receives a fragment. -/
def ask (matcher : Matcher μ) (f : Fragment) (device : Device) : Run (Memory μ ℓ π ω) Bool :=
  fun s ↦
    let reply := matcher.accepts f device s.policy
    ⟨reply.answer, { s with policy := reply.memory },
      .asked f device reply.answer :: reply.notices.map .noticed⟩

/-- Has the modifier edit a manifest. -/
def modify (modifier : Modifier μ) (manifest : Manifest) (descriptor : ModificationDescriptor) :
    Run (Memory μ ℓ π ω) Manifest := fun s ↦
  let reply := modifier.modify manifest descriptor s.policy
  ⟨reply.answer, { s with policy := reply.memory },
    .modified manifest descriptor reply.answer :: reply.notices.map .noticed⟩

/-- Tells the path assigner that a run begins. -/
def startNaming (assigner : PathAssigner π) : Run (Memory μ ℓ π ω) Unit := fun s ↦
  ⟨.ok (), { s with naming := assigner.restart s.naming }, []⟩

/-- Has the path assigner name a fragment. -/
def name (assigner : PathAssigner π) (f : Fragment) : Run (Memory μ ℓ π ω) ArchivePath := fun s ↦
  let named := assigner.path f s.naming
  ⟨.ok named.1, { s with naming := named.2 }, [.named f named.1]⟩

/-- Has the writer store an artifact. -/
def add (writer : Writer ω) (call : WriteCall) : Run (Memory μ ℓ π ω) ArtifactDescriptor :=
  fun s ↦
    let reply := writer.add call s.archive
    ⟨reply.answer, { s with archive := reply.memory },
      .added call reply.answer :: reply.notices.map .noticed⟩

/-- Has the writer store the table of contents. -/
def publish (writer : Writer ω) (toc : TableOfContents) : Run (Memory μ ℓ π ω) Unit := fun s ↦
  let reply := writer.publish toc s.archive
  ⟨reply.answer, { s with archive := reply.memory },
    .published toc reply.answer :: reply.notices.map .noticed⟩

/-- Tells the listener about an artifact. That the listener fails is an answer like any other. -/
def notify (listener : Listener ℓ) (descriptor : ArtifactDescriptor) :
    Run (Memory μ ℓ π ω) (Except Error Unit) := fun s ↦
  let reply := listener.hear descriptor s.listener
  ⟨.ok reply.answer, { s with listener := reply.memory },
    .notified descriptor reply.answer :: reply.notices.map .noticed⟩

end Run

end FragmentArchive
