import FragmentArchive.Error

/-!
# What a build mode admits

Each build mode rules out some categories of fragments. The categories are looked for in a fixed
order, so of several that should not be there the same one is always reported.
-/

namespace FragmentArchive.BuildMode

/-- The categories that a mode rules out, in the order in which they are looked for. -/
def forbidden : BuildMode → List Category
  | default => [.system]
  | universal => [.split, .instant, .hibernation, .system]
  | system => [.split, .instant, .hibernation, .standalone]
  | persistent => [.system, .instant]
  | instant => [.system, .split, .standalone]
  | archive => [.split, .instant, .standalone, .system]

/-- Fails when there are fragments that a mode rules out. -/
def check (mode : BuildMode) (fragments : List Fragment) : Except Error Unit :=
  match mode.forbidden.find? fun category ↦ Fragment.anyOf category fragments with
  | some category => .error (.internal (.forbidden mode category))
  | none => .ok ()

end FragmentArchive.BuildMode
