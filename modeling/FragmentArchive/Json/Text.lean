import FragmentArchive.Fallible
import FragmentArchive.Json.Error

/-!
# Strings

Between its quotes a string holds characters other than control characters, and escapes. An escape
by code unit stands for one UTF-16 unit, and two of them in a row may form a surrogate pair; a unit
without its partner is no character, so the string has no value. Such a string can nevertheless be
skipped, which is why skipping is a function of its own and not "reading and forgetting".

Writing uses the short escapes where there are any, code units for the other control characters,
and leaves everything else as it is.
-/

namespace FragmentArchive.Json.Text

/-! ## Writing -/

/-- The escaped form of a character. -/
def escape (c : Char) : List Char :=
  match c with
  | '"' => ['\\', '"']
  | '\\' => ['\\', '\\']
  | '\x08' => ['\\', 'b']
  | '\x0c' => ['\\', 'f']
  | '\n' => ['\\', 'n']
  | '\r' => ['\\', 'r']
  | '\t' => ['\\', 't']
  | c =>
    if c < ' ' then
      ['\\', 'u', '0', '0', Nat.digitChar (c.toNat / 16), Nat.digitChar (c.toNat % 16)]
    else [c]

/-- The characters of a string in its quotes. -/
def write (s : String) : List Char := '"' :: s.toList.flatMap escape ++ ['"']

/-! ## Escapes -/

/-- The value of a hexadecimal digit. -/
def hexValue (c : Char) : Option Nat :=
  if '0' ≤ c ∧ c ≤ '9' then some (c.toNat - '0'.toNat)
  else if 'a' ≤ c ∧ c ≤ 'f' then some (c.toNat - 'a'.toNat + 10)
  else if 'A' ≤ c ∧ c ≤ 'F' then some (c.toNat - 'A'.toNat + 10)
  else none

/-- The flaw of four hexadecimal digits that are not there. The text counts as ended when it has
fewer than four bytes left. -/
private def hexFlaw (s : List Char) : Flaw :=
  if (String.ofList s).utf8ByteSize < 4 then .truncated else .malformed

/-- A code unit in four hexadecimal digits. -/
def scanUnit : List Char → Except Flaw (Nat × List Char)
  | a :: b :: c :: d :: s =>
    match hexValue a, hexValue b, hexValue c, hexValue d with
    | some a, some b, some c, some d => .ok (((a * 16 + b) * 16 + c) * 16 + d, s)
    | _, _, _, _ => .error .malformed
  | s => .error (hexFlaw s)

/-- The character of a short escape. -/
private def shortEscape : Char → Option Char
  | '"' => some '"'
  | '\\' => some '\\'
  | '/' => some '/'
  | 'b' => some '\x08'
  | 'f' => some '\x0c'
  | 'n' => some '\n'
  | 'r' => some '\r'
  | 't' => some '\t'
  | _ => none

/-- The second half of a surrogate pair, which has to be an escape by code unit itself. -/
private def scanPartner (high : Nat) : List Char → Except Flaw (Char × List Char)
  | [] | ['\\'] => .error .truncated
  | '\\' :: 'u' :: s => do
    let low ← scanUnit s
    if 0xdc00 ≤ low.1 ∧ low.1 ≤ 0xdfff then
      return (Char.ofNat ((high - 0xd800) * 0x400 + (low.1 - 0xdc00) + 0x10000), low.2)
    else throw .malformed
  | _ => .error .malformed

/-- The character of an escape, from behind the backslash. -/
def scanEscape : List Char → Except Flaw (Char × List Char)
  | [] => .error .truncated
  | 'u' :: s => do
    let unit ← scanUnit s
    if 0xdc00 ≤ unit.1 ∧ unit.1 ≤ 0xdfff then throw .malformed
    else if 0xd800 ≤ unit.1 ∧ unit.1 ≤ 0xdbff then scanPartner unit.1 unit.2
    else return (Char.ofNat unit.1, unit.2)
  | c :: s =>
    match shortEscape c with
    | some c => .ok (c, s)
    | none => .error .malformed

/-- What follows an escape, from behind the backslash, whatever it stands for. -/
private def skipEscape : List Char → Except Flaw (List Char)
  | [] => .error .truncated
  | 'u' :: s => (scanUnit s).map (·.2)
  | c :: s => if (shortEscape c).isSome then .ok s else .error .malformed

private theorem length_scanUnit {s : List Char} {r : Nat × List Char} (h : scanUnit s = .ok r) :
    r.2.length < s.length := by
  unfold scanUnit at h
  split at h
  · split at h
    · cases h
      simp only [List.length_cons]
      omega
    · cases h
  · cases h

private theorem length_scanPartner {high : Nat} {s : List Char} {r : Char × List Char}
    (h : scanPartner high s = .ok r) : r.2.length < s.length := by
  unfold scanPartner at h
  split at h
  · cases h
  · cases h
  · obtain ⟨low, hlow, h⟩ := bind_eq_ok_iff.1 h
    have := length_scanUnit hlow
    split at h
    · obtain rfl := Except.ok.inj h
      simp only [List.length_cons]
      omega
    · cases h
  · cases h

private theorem length_scanEscape {s : List Char} {r : Char × List Char}
    (h : scanEscape s = .ok r) : r.2.length < s.length := by
  unfold scanEscape at h
  split at h
  · cases h
  · obtain ⟨unit, hunit, h⟩ := bind_eq_ok_iff.1 h
    have := length_scanUnit hunit
    simp only [List.length_cons]
    split at h
    · cases h
    · split at h
      · have := length_scanPartner h
        omega
      · obtain rfl := Except.ok.inj h
        exact Nat.lt_succ_of_lt this
  · split at h
    · cases h
      exact Nat.lt_succ_self _
    · cases h

private theorem length_skipEscape {s r : List Char} (h : skipEscape s = .ok r) :
    r.length < s.length := by
  unfold skipEscape at h
  split at h
  · cases h
  · obtain ⟨unit, hunit, rfl⟩ := map_eq_ok_iff.1 h
    have := length_scanUnit hunit
    simp only [List.length_cons]
    omega
  · split at h
    · cases h
      exact Nat.lt_succ_self _
    · cases h

/-! ## Reading and skipping

Both start behind the opening quote and end behind the closing one. -/

/-- The characters of a string, and what follows it. -/
def read (s : List Char) : Except Flaw (List Char × List Char) :=
  match s with
  | [] => .error .truncated
  | '"' :: s => .ok ([], s)
  | '\\' :: s =>
    match h : scanEscape s with
    | .ok r =>
      have := length_scanEscape h
      (read r.2).map fun rest ↦ (r.1 :: rest.1, rest.2)
    | .error flaw => .error flaw
  | c :: s =>
    if c < ' ' then .error .malformed
    else (read s).map fun rest ↦ (c :: rest.1, rest.2)
termination_by s.length

/-- What follows a string, whether it has a value or not. -/
def skip (s : List Char) : Except Flaw (List Char) :=
  match s with
  | [] => .error .truncated
  | '"' :: s => .ok s
  | '\\' :: s =>
    match h : skipEscape s with
    | .ok r =>
      have := length_skipEscape h
      skip r
    | .error flaw => .error flaw
  | c :: s => if c < ' ' then .error .malformed else skip s
termination_by s.length

theorem length_lt_of_read {s : List Char} {r : List Char × List Char} (h : read s = .ok r) :
    r.2.length < s.length := by
  fun_induction read s generalizing r with
  | case1 => cases h
  | case2 s =>
    cases h
    exact Nat.lt_succ_self _
  | case3 s e he hlt ih =>
    obtain ⟨rest, hrest, rfl⟩ := map_eq_ok_iff.1 h
    have := ih hrest
    simp only [List.length_cons]
    omega
  | case4 => cases h
  | case5 => cases h
  | case6 c s _ _ _ ih =>
    obtain ⟨rest, hrest, rfl⟩ := map_eq_ok_iff.1 h
    have := ih hrest
    simp only [List.length_cons]
    omega

theorem length_lt_of_skip {s r : List Char} (h : skip s = .ok r) : r.length < s.length := by
  fun_induction skip s with
  | case1 => cases h
  | case2 s =>
    cases h
    exact Nat.lt_succ_self _
  | case3 s e he hlt ih =>
    have := ih h
    simp only [List.length_cons]
    omega
  | case4 => cases h
  | case5 => cases h
  | case6 c s _ _ _ ih =>
    have := ih h
    simp only [List.length_cons]
    omega

end FragmentArchive.Json.Text
