import FragmentArchive.Proofs.Json.Codec
import FragmentArchive.Version

/-!
# Versions and their texts

The text of a version is read back. The parts are cut off one after the other, and each ends where
the next one begins because the mark between them is no character of the part before it: no digit
is a point, and no character of an identifier is a point or a plus sign. A hyphen is one, so the
mark of the pre-release identifiers is recognized by its place alone.
-/

namespace FragmentArchive.Version

open Json

/-! ## Numbers -/

theorem readNumber_digits (part : Part) (n : UInt64) {rest : List Char}
    (h : ∀ c ∈ rest.head?, c.isDigit = false) :
    readNumber part (Decimal.digits n.toNat ++ rest) = .ok (n, rest) := by
  have hcut := Decimal.takeWhile_dropWhile_digits n.toNat h
  have hpadded : isPaddedNumber (Decimal.digits n.toNat) = false := by
    rcases Nat.eq_zero_or_pos n.toNat with hzero | hpos
    · rw [hzero]
      decide
    · rw [isPaddedNumber, beq_eq_false_iff_ne.mpr (Decimal.head?_digits_of_pos hpos),
        Bool.and_false]
  obtain ⟨c, s, hdigits⟩ := List.exists_cons_of_ne_nil (Decimal.digits_ne_nil n.toNat)
  simp only [readNumber, hcut]
  rw [hdigits] at hpadded ⊢
  dsimp only
  rw [hpadded, if_neg Bool.false_ne_true, ← hdigits, Decimal.value_digits, if_pos n.toNat_lt,
    UInt64.ofNat_toNat]

/-! ## Identifiers -/

section Identifiers

variable {ι : Type} {part : Part} {ofChars : List Char → Except Fault ι} {chars : ι → List Char}

private theorem cut {s rest : List Char} (hs : isBuildIdentifier s = true)
    (h : ∀ c ∈ rest.head?, isIdentifierChar c = false) :
    s ≠ [] ∧ (s ++ rest).takeWhile isIdentifierChar = s ∧
      (s ++ rest).dropWhile isIdentifierChar = rest := by
  rw [isBuildIdentifier, Bool.and_eq_true, Bool.not_eq_true', List.isEmpty_eq_false_iff,
    List.all_eq_true] at hs
  exact ⟨hs.1, takeWhile_dropWhile_append hs.2 h⟩

/-- Behind a point comes another identifier. -/
private theorem readIdentifiers_point {s : List Char} (hs : isBuildIdentifier s = true)
    (rest : List Char) :
    readIdentifiers part ofChars (s ++ '.' :: rest) = (do
      let first ← ofChars s
      let others ← readIdentifiers part ofChars rest
      return (first :: others.1, others.2)) := by
  have hpoint : ∀ c ∈ ('.' :: rest).head?, isIdentifierChar c = false := by
    rintro _ ⟨⟩
    decide
  obtain ⟨hne, htake, hdrop⟩ := cut hs hpoint
  rw [readIdentifiers]
  split
  · next hnil => exact absurd (htake.symm.trans hnil) hne
  · next h _ =>
    rw [hdrop] at h
    obtain ⟨-, rfl⟩ := List.cons.inj h
    rw [htake]
  · next hnot => exact absurd hdrop (hnot _)

/-- Without a point the identifier is the last one. -/
private theorem readIdentifiers_last {s rest : List Char} (hs : isBuildIdentifier s = true)
    (h : ∀ c ∈ rest.head?, isIdentifierChar c = false ∧ c ≠ '.') :
    readIdentifiers part ofChars (s ++ rest) = (do
      let last ← ofChars s
      return ([last], rest)) := by
  obtain ⟨hne, htake, hdrop⟩ := cut hs fun c hc ↦ (h c hc).1
  rw [readIdentifiers]
  split
  · next hnil => exact absurd (htake.symm.trans hnil) hne
  · next hpoint _ =>
    rw [hdrop] at hpoint
    subst hpoint
    exact absurd rfl (h '.' rfl).2
  · rw [htake, hdrop]

/-- Identifiers are read up to the first character that cannot belong to them. -/
theorem readIdentifiers_intercalate (hback : ∀ i, ofChars (chars i) = .ok i)
    (hchars : ∀ i, isBuildIdentifier (chars i) = true) {rest : List Char}
    (h : ∀ c ∈ rest.head?, isIdentifierChar c = false ∧ c ≠ '.') (first : ι) (others : List ι) :
    readIdentifiers part ofChars
        (List.intercalate ['.'] ((first :: others).map chars) ++ rest) =
      .ok (first :: others, rest) := by
  induction others generalizing first with
  | nil =>
    change readIdentifiers part ofChars (List.intercalate ['.'] [chars first] ++ rest) = _
    rw [List.intercalate_singleton, readIdentifiers_last (hchars first) h, hback]
    rfl
  | cons second others ih =>
    change readIdentifiers part ofChars
      (List.intercalate ['.'] (chars first :: chars second :: others.map chars) ++ rest) = _
    rw [List.intercalate_cons_cons, List.append_assoc, List.append_assoc, List.singleton_append,
      readIdentifiers_point (hchars first), hback]
    have hothers := ih second
    rw [List.map_cons] at hothers
    rw [hothers]
    rfl

/-- Identifiers that are missing are told by the mark that does not come. -/
theorem readTail_tail (hback : ∀ i, ofChars (chars i) = .ok i)
    (hchars : ∀ i, isBuildIdentifier (chars i) = true) {mark : Char} {rest : List Char}
    (h : ∀ c ∈ rest.head?, isIdentifierChar c = false ∧ c ≠ '.' ∧ c ≠ mark) (is : List ι)
    (last : Part) :
    ∃ last', readTail mark part ofChars (last, tail mark (is.map chars) ++ rest) =
      .ok (is, last', rest) := by
  cases is with
  | nil =>
    refine ⟨last, ?_⟩
    change readTail mark part ofChars (last, rest) = _
    cases rest with
    | nil => rfl
    | cons c rest =>
      rw [readTail, if_neg (h c rfl).2.2]
  | cons first others =>
    refine ⟨part, ?_⟩
    change readTail mark part ofChars (last, mark :: (List.intercalate ['.']
      ((first :: others).map chars) ++ rest)) = _
    rw [readTail, if_pos rfl, readIdentifiers_intercalate hback hchars
      (fun c hc ↦ ⟨(h c hc).1, (h c hc).2.1⟩)]
    rfl

end Identifiers

/-! ## Versions -/

private theorem head?_tail {mark : Char} {identifiers : List (List Char)} {rest : List Char}
    {c : Char} (h : c ∈ (tail mark identifiers ++ rest).head?) : c = mark ∨ c ∈ rest.head? := by
  rw [tail] at h
  split at h
  · exact .inr h
  · exact .inl (Option.some.inj h).symm

/-- **The text of a version is read as this version.** -/
theorem ofText_text (v : Version) : ofText v.text = .ok v := by
  obtain ⟨major, minor, patch, pre, build⟩ := v
  let buildTail := tail '+' (build.map (·.1))
  let preTail := tail '-' (pre.map (·.1)) ++ buildTail
  have hbuildHead : ∀ c ∈ (buildTail ++ []).head?, c = '+' := fun c hc ↦ by
    rcases head?_tail hc with h | h
    · exact h
    · cases h
  rw [List.append_nil] at hbuildHead
  have hpreHead : ∀ c ∈ preTail.head?, c = '-' ∨ c = '+' := fun c hc ↦
    (head?_tail hc).imp_right (hbuildHead c)
  have hpre : ∀ last, ∃ last', readTail '-' .pre preIdentifier (last, preTail) =
      .ok (pre, last', buildTail) :=
    readTail_tail (fun i ↦ dif_pos i.2) (fun i ↦ (Bool.and_eq_true_iff.mp i.2).1)
      (fun c hc ↦ by rw [hbuildHead c hc]; decide) pre
  have hbuild : ∀ last, ∃ last', readTail '+' .build buildIdentifier (last, buildTail) =
      .ok (build, last', []) := by
    have hend : ∀ c ∈ ([] : List Char).head?, isIdentifierChar c = false ∧ c ≠ '.' ∧ c ≠ '+' :=
      fun _ hc ↦ nomatch hc
    rw [← List.append_nil buildTail]
    exact readTail_tail (fun i ↦ dif_pos i.2) (fun i ↦ i.2) hend build
  obtain ⟨last, hpre⟩ := hpre .patch
  obtain ⟨last', hbuild⟩ := hbuild last
  have hpoint : ∀ s : List Char, ∀ c ∈ ('.' :: s).head?, c.isDigit = false := by
    rintro s _ ⟨⟩
    decide
  have hmajor := readNumber_digits .major major
    (hpoint (Decimal.digits minor.toNat ++ '.' :: (Decimal.digits patch.toNat ++ preTail)))
  have hminor := readNumber_digits .minor minor
    (hpoint (Decimal.digits patch.toNat ++ preTail))
  have hpatch : readNumber .patch (Decimal.digits patch.toNat ++ preTail) = .ok (patch, preTail) :=
    readNumber_digits .patch patch fun c hc ↦ by
      rcases hpreHead c hc with rfl | rfl <;> decide
  have htext : (text ⟨major, minor, patch, pre, build⟩).toList = Decimal.digits major.toNat ++
      '.' :: (Decimal.digits minor.toNat ++ '.' :: (Decimal.digits patch.toNat ++ preTail)) := by
    simp only [text, String.toList_ofList, List.append_assoc, List.cons_append, preTail, buildTail]
  have hne : (text ⟨major, minor, patch, pre, build⟩).toList.isEmpty = false := by
    rw [htext]
    simp
  rw [ofText]
  dsimp only
  rw [hne, htext, if_neg Bool.false_ne_true]
  refine bind_eq_ok_iff.mpr ⟨_, hmajor, bind_eq_ok_iff.mpr ⟨_, rfl, ?_⟩⟩
  refine bind_eq_ok_iff.mpr ⟨_, hminor, bind_eq_ok_iff.mpr ⟨_, rfl, ?_⟩⟩
  refine bind_eq_ok_iff.mpr ⟨_, hpatch, bind_eq_ok_iff.mpr ⟨_, hpre, ?_⟩⟩
  exact bind_eq_ok_iff.mpr ⟨_, hbuild, rfl⟩

theorem faithful_codec : Version.codec.Faithful := by
  intro v
  change (ofText v.text).mapError _ = _
  rw [ofText_text]
  rfl

end FragmentArchive.Version
