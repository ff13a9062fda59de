import FragmentArchive.Device.Tier
import FragmentArchive.Fallible

/-!
# Numerals of tiers

A default suffix is read digit by digit, and the number so far must fit into 32 bits after every
digit. Since it never comes closer to zero, this asks no more than that the number at the end fits:
what is read are the decimal numerals of 32 bits, with leading zeros and one sign if one likes, and
besides the empty suffix.
-/

namespace FragmentArchive

/-- A decimal numeral with at most one sign, and the number that it denotes. -/
inductive Numeral : List Char → Int → Prop
  | unsigned {ds : List Char} : ds ≠ [] → (∀ c ∈ ds, c.isDigit) → Numeral ds (Decimal.value ds)
  | plus {ds : List Char} : ds ≠ [] → (∀ c ∈ ds, c.isDigit) →
      Numeral ('+' :: ds) (Decimal.value ds)
  | minus {ds : List Char} : ds ≠ [] → (∀ c ∈ ds, c.isDigit) →
      Numeral ('-' :: ds) (-Decimal.value ds)

namespace Numeral

variable {ds : List Char} {n : Int}

theorem ne_nil (h : Numeral ds n) : ds ≠ [] := by
  cases h with
  | unsigned hne _ => exact hne
  | plus _ _ => exact List.cons_ne_nil _ _
  | minus _ _ => exact List.cons_ne_nil _ _

theorem plus_iff : Numeral ('+' :: ds) n ↔
    ds ≠ [] ∧ (∀ c ∈ ds, c.isDigit) ∧ n = Decimal.value ds := by
  constructor
  · intro h
    cases h with
    | unsigned _ hdigits => exact absurd (hdigits '+' List.mem_cons_self) (by decide)
    | plus hne hdigits => exact ⟨hne, hdigits, rfl⟩
  · rintro ⟨hne, hdigits, rfl⟩
    exact .plus hne hdigits

theorem minus_iff : Numeral ('-' :: ds) n ↔
    ds ≠ [] ∧ (∀ c ∈ ds, c.isDigit) ∧ n = -Decimal.value ds := by
  constructor
  · intro h
    cases h with
    | unsigned _ hdigits => exact absurd (hdigits '-' List.mem_cons_self) (by decide)
    | minus hne hdigits => exact ⟨hne, hdigits, rfl⟩
  · rintro ⟨hne, hdigits, rfl⟩
    exact .minus hne hdigits

theorem unsigned_iff (hplus : ∀ ds', ds ≠ '+' :: ds') (hminus : ∀ ds', ds ≠ '-' :: ds') :
    Numeral ds n ↔ ds ≠ [] ∧ (∀ c ∈ ds, c.isDigit) ∧ n = Decimal.value ds := by
  constructor
  · intro h
    cases h with
    | unsigned hne hdigits => exact ⟨hne, hdigits, rfl⟩
    | plus _ _ => exact absurd rfl (hplus _)
    | minus _ _ => exact absurd rfl (hminus _)
  · rintro ⟨hne, hdigits, rfl⟩
    exact .unsigned hne hdigits

end Numeral

namespace Device

/-- A number of 32 bits. -/
def Fits (n : Int) : Prop := Int32.minValue.toInt ≤ n ∧ n ≤ Int32.maxValue.toInt

theorem fits_toInt (tier : Int32) : Fits tier.toInt :=
  ⟨Int32.minValue_le_toInt tier, Int32.toInt_le tier⟩

theorem Fits.toInt_ofInt {n : Int} (h : Fits n) : (Int32.ofInt n).toInt = n := by
  have hmin : Int32.minValue.toInt = -2 ^ 31 := by decide
  have hmax : Int32.maxValue.toInt = 2 ^ 31 - 1 := by decide
  rw [Fits, hmin, hmax] at h
  exact Int32.toInt_ofInt_of_le h.1 (by omega)

/-- The number at a distance from zero. -/
def signed (negative : Bool) (n : Nat) : Int := if negative then -n else n

/-- What is farther from zero does not fit either. -/
theorem Fits.mono {negative : Bool} {n n' : Nat} (h : Fits (signed negative n')) (hle : n ≤ n') :
    Fits (signed negative n) := by
  have hmin : Int32.minValue.toInt = -2147483648 := by decide
  have hmax : Int32.maxValue.toInt = 2147483647 := by decide
  rw [Fits, hmin, hmax] at h ⊢
  cases negative <;> simp only [signed, Bool.false_eq_true, if_true, if_false] at h ⊢ <;> omega

theorem le_ofDigitChars (n : Nat) (ds : List Char) : n ≤ Nat.ofDigitChars 10 ds n := by
  induction ds generalizing n with
  | nil => exact Nat.le_refl n
  | cons c ds ih =>
    rw [Nat.ofDigitChars_cons]
    exact Nat.le_trans (by omega) (ih _)

/-- **What digits do to a number.** -/
theorem appendDigits_eq_ok_iff {negative : Bool} {n : Nat} (hn : Fits (signed negative n))
    {ds : List Char} {m : Int} : appendDigits negative (signed negative n) ds = .ok m ↔
      (∀ c ∈ ds, c.isDigit) ∧ Fits m ∧ m = signed negative (Nat.ofDigitChars 10 ds n) := by
  induction ds generalizing n with
  | nil =>
    rw [appendDigits, Except.ok.injEq, Nat.ofDigitChars_nil]
    constructor
    · rintro rfl
      exact ⟨fun _ hc ↦ absurd hc List.not_mem_nil, hn, rfl⟩
    · rintro ⟨-, -, rfl⟩
      rfl
  | cons c ds ih =>
    rw [appendDigits, List.forall_mem_cons, Nat.ofDigitChars_cons]
    by_cases hc : c.isDigit = true
    · have hnext : (if negative then signed negative n * 10 - (Decimal.digitValue c : Int)
          else signed negative n * 10 + (Decimal.digitValue c : Int)) =
          signed negative (10 * n + (c.toNat - '0'.toNat)) := by
        rw [Decimal.digitValue]
        cases negative <;> simp only [signed, Bool.false_eq_true, if_true, if_false] <;> omega
      have hdigits : (c.isDigit = true ∧ ∀ c ∈ ds, c.isDigit = true) ↔
          ∀ c ∈ ds, c.isDigit = true := and_iff_right hc
      rw [hdigits, if_neg (by rw [hc]; exact Bool.false_ne_true)]
      dsimp only
      rw [hnext]
      by_cases hfits : Fits (signed negative (10 * n + (c.toNat - '0'.toNat)))
      · rw [if_neg (Int.not_lt.mpr hfits.1), if_neg (Int.not_lt.mpr hfits.2), ih hfits]
      · -- no further digit brings the number back
        have hnot : ¬(Fits m ∧ m = signed negative
            (Nat.ofDigitChars 10 ds (10 * n + (c.toNat - '0'.toNat)))) := by
          rintro ⟨hm, rfl⟩
          exact hfits (hm.mono (le_ofDigitChars _ ds))
        refine iff_of_false ?_ fun h ↦ hnot h.2
        rw [Fits, Decidable.not_and_iff_or_not, Int.not_le, Int.not_le] at hfits
        split
        · nofun
        · next hsmall =>
          rw [if_pos (hfits.resolve_left hsmall)]
          nofun
    · rw [if_pos (by rw [Bool.eq_false_iff.mpr hc]; rfl)]
      exact iff_of_false nofun fun h ↦ hc h.1.1

/-- Digits behind a sign, if there is one. -/
private theorem appendDigits_zero_iff (negative : Bool) {ds : List Char} {m : Int} :
    appendDigits negative 0 ds = .ok m ↔
      ((∀ c ∈ ds, c.isDigit) ∧ m = signed negative (Decimal.value ds)) ∧ Fits m := by
  have hzero : signed negative 0 = 0 := by cases negative <;> rfl
  have hfits : Fits (signed negative 0) := by
    rw [hzero]
    exact ⟨by decide, by decide⟩
  rw [← hzero, appendDigits_eq_ok_iff hfits, and_assoc, and_comm (a := Fits m), Decimal.value]

/-- **Which suffixes denote a number.** -/
theorem suffixValue_eq_ok_iff {cs : List Char} {m : Int} :
    suffixValue cs = .ok m ↔ cs = [] ∧ m = 0 ∨ Numeral cs m ∧ Fits m := by
  unfold suffixValue
  split
  · rw [Except.ok.injEq, eq_comm]
    refine ⟨fun hm ↦ .inl ⟨rfl, hm⟩, fun h ↦ ?_⟩
    exact h.elim (·.2) fun h ↦ absurd rfl h.1.ne_nil
  · refine iff_of_false nofun ?_
    rintro (⟨h, -⟩ | ⟨h, -⟩)
    · cases h
    · exact (Numeral.plus_iff.mp h).1 rfl
  · refine iff_of_false nofun ?_
    rintro (⟨h, -⟩ | ⟨h, -⟩)
    · cases h
    · exact (Numeral.minus_iff.mp h).1 rfl
  · next ds hne =>
    have hds : ds ≠ [] := by rintro rfl; exact hne rfl
    rw [appendDigits_zero_iff, Numeral.plus_iff, or_iff_right (List.cons_ne_nil _ _ ·.1),
      and_iff_right hds]
    rfl
  · next ds hne =>
    have hds : ds ≠ [] := by rintro rfl; exact hne rfl
    rw [appendDigits_zero_iff, Numeral.minus_iff, or_iff_right (List.cons_ne_nil _ _ ·.1),
      and_iff_right hds]
    rfl
  · next hne _ _ hplus hminus =>
    rw [appendDigits_zero_iff, Numeral.unsigned_iff hplus hminus, or_iff_right (hne ·.1),
      and_iff_right (a := cs ≠ []) hne]
    rfl

/-- **Which suffixes denote a tier.** -/
theorem tierOfSuffix_eq_ok_iff {suffix : String} {tier : Int32} :
    tierOfSuffix suffix = .ok tier ↔
      suffix = "" ∧ tier = 0 ∨ Numeral suffix.toList tier.toInt := by
  rw [tierOfSuffix, map_eq_ok_iff]
  constructor
  · rintro ⟨m, hm, rfl⟩
    rcases suffixValue_eq_ok_iff.mp hm with ⟨hnil, rfl⟩ | ⟨hnumeral, hfits⟩
    · exact .inl ⟨String.toList_eq_nil_iff.mp hnil, rfl⟩
    · rw [hfits.toInt_ofInt]
      exact .inr hnumeral
  · rintro (⟨rfl, rfl⟩ | hnumeral)
    · exact ⟨0, rfl, rfl⟩
    · exact ⟨tier.toInt, suffixValue_eq_ok_iff.mpr (.inr ⟨hnumeral, fits_toInt tier⟩),
        Int32.ofInt_toInt tier⟩

end Device

end FragmentArchive
