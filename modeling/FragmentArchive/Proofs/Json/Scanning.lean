import FragmentArchive.Json.Value
import FragmentArchive.Proofs.Lists

/-!
# Scanning what was written

A string, a number or a word is cut out of a text as the token it was written for. Strings and
words bring their own end. A number does not: it has to be followed by something that cannot belong
to it, and in a document it always is, by a blank, a comma, a closing bracket or nothing.
-/

namespace FragmentArchive

/-! ## Digits -/

namespace Decimal

theorem digits_ne_nil (n : Nat) : digits n ≠ [] := Nat.toDigits_ne_nil

/-- Only the number zero is written with a leading zero. -/
theorem head?_digits_of_pos {n : Nat} (h : 0 < n) : (digits n).head? ≠ some '0' := by
  induction n using Nat.strongRecOn with
  | ind n ih =>
    by_cases hlt : n < 10
    · rw [digits, Nat.toDigits_of_lt_base hlt, List.head?_cons, ne_eq, Option.some.injEq,
        Nat.digitChar_eq_zero]
      omega
    · have hsmaller := ih (n / 10) (by omega) (by omega)
      rw [digits, Nat.toDigits_of_base_le (by decide) (by omega), List.head?_append]
      rw [← digits]
      obtain ⟨c, s, heq⟩ := List.exists_cons_of_ne_nil (digits_ne_nil (n / 10))
      rw [heq] at hsmaller ⊢
      exact hsmaller

/-- Digits are cut off a text up to the first character that is none. -/
theorem takeWhile_dropWhile_digits (n : Nat) {rest : List Char}
    (h : ∀ c ∈ rest.head?, c.isDigit = false) :
    (digits n ++ rest).takeWhile Char.isDigit = digits n ∧
      (digits n ++ rest).dropWhile Char.isDigit = rest :=
  takeWhile_dropWhile_append (fun _ ↦ isDigit_of_mem_digits) h

theorem toList_ofInt_ofNat (n : Nat) : (ofInt (.ofNat n)).toList = digits n :=
  String.toList_ofList

theorem toList_ofInt_negSucc (n : Nat) : (ofInt (.negSucc n)).toList = '-' :: digits (n + 1) := by
  rw [ofInt, String.toList_append]
  exact congrArg ('-' :: ·) String.toList_ofList

/-- An integer begins with its sign or with a digit. -/
theorem exists_cons_toList_ofInt (n : Int) :
    ∃ c s, (ofInt n).toList = c :: s ∧ (c = '-' ∨ c.isDigit = true) := by
  cases n with
  | ofNat n =>
    obtain ⟨c, s, heq⟩ := List.exists_cons_of_ne_nil (digits_ne_nil n)
    refine ⟨c, s, by rw [toList_ofInt_ofNat, heq], .inr ?_⟩
    exact isDigit_of_mem_digits (heq ▸ List.mem_cons_self)
  | negSucc n => exact ⟨'-', _, toList_ofInt_negSucc n, .inl rfl⟩

end Decimal

namespace Json

/-! ## Strings -/

namespace Text

theorem hexValue_digitChar : ∀ n < 16, hexValue (Nat.digitChar n) = some n := by decide

/-- An escape is read as the character that it stands for. -/
theorem read_backslash {s rest : List Char} {c : Char} (h : scanEscape s = .ok (c, rest)) :
    read ('\\' :: s) = (read rest).map fun r ↦ (c :: r.1, r.2) := by
  rw [read]
  split
  · next r hr =>
    rw [h] at hr
    obtain rfl := Except.ok.inj hr
    rfl
  · next hr =>
    rw [h] at hr
    cases hr

/-- A character that is written by its code unit is read as itself. -/
theorem scanEscape_unit {c : Char} (h : c.toNat < 256) (s : List Char) :
    scanEscape ('u' :: '0' :: '0' :: Nat.digitChar (c.toNat / 16) :: Nat.digitChar (c.toNat % 16)
      :: s) = .ok (c, s) := by
  have hzero : hexValue '0' = some 0 := by decide
  have hvalue : ((0 * 16 + 0) * 16 + c.toNat / 16) * 16 + c.toNat % 16 = c.toNat := by omega
  have hunit : scanUnit ('0' :: '0' :: Nat.digitChar (c.toNat / 16) ::
      Nat.digitChar (c.toNat % 16) :: s) = .ok (c.toNat, s) := by
    rw [scanUnit, hzero, hexValue_digitChar _ (by omega), hexValue_digitChar _ (by omega)]
    dsimp only
    rw [hvalue]
  rw [scanEscape, hunit]
  -- so small a unit is no half of a pair
  change (if 0xdc00 ≤ c.toNat ∧ c.toNat ≤ 0xdfff then _
    else if 0xd800 ≤ c.toNat ∧ c.toNat ≤ 0xdbff then _ else _) = _
  rw [if_neg (by omega), if_neg (by omega), Char.ofNat_toNat]
  rfl

/-- A written character is read back. -/
theorem read_escape (c : Char) (s : List Char) :
    read (escape c ++ s) = (read s).map fun r ↦ (c :: r.1, r.2) := by
  unfold escape
  split
  case h_8 hquote hbackslash _ _ _ _ _ =>
    split
    · next hlt =>
      have hsmall : c.toNat < 256 := Nat.lt_trans (show c.toNat < 32 from hlt) (by decide)
      exact read_backslash (scanEscape_unit hsmall s)
    · next hlt =>
      rw [List.singleton_append, read, if_neg hlt]
      · exact hquote
      · exact hbackslash
  all_goals exact read_backslash rfl

/-- **Written strings are read back.** Reading begins behind the opening quote. -/
theorem read_flatMap_escape (value rest : List Char) :
    read (value.flatMap escape ++ '"' :: rest) = .ok (value, rest) := by
  induction value with
  | nil => rw [List.flatMap_nil, List.nil_append, read]
  | cons c value ih =>
    rw [List.flatMap_cons, List.append_assoc, read_escape, ih]
    rfl

end Text

/-! ## Numbers -/

namespace Numeral

/-- A text does not go on a number that ends before it. -/
def Stops (rest : List Char) : Prop :=
  ∀ c ∈ rest.head?, c.isDigit = false ∧ c ≠ '.' ∧ c ≠ 'e' ∧ c ≠ 'E'

theorem scanDigits_digits (n : Nat) {rest : List Char} (h : Stops rest) :
    scanDigits (Decimal.digits n ++ rest) = .ok (Decimal.digits n, rest) := by
  have hcut := Decimal.takeWhile_dropWhile_digits n fun c hc ↦ (h c hc).1
  rw [scanDigits, hcut.1, hcut.2, if_neg]
  simp [Decimal.digits_ne_nil]

/-- Digits with their sign are read up to the end of the number. -/
private theorem scan_of_sign {negative : Bool} {n : Nat} {s rest : List Char}
    (hs : scanSign s = (negative, Decimal.digits n ++ rest)) (h : Stops rest) :
    scan s = .ok (⟨negative, Decimal.digits n, [], none⟩, rest) := by
  have hzero : ¬((Decimal.digits n).head? = some '0' ∧ 1 < (Decimal.digits n).length) := by
    rintro ⟨hhead, hlength⟩
    rcases Nat.eq_zero_or_pos n with rfl | hpos
    · exact absurd hlength (by decide)
    · exact Decimal.head?_digits_of_pos hpos hhead
  have hfraction : scanFraction rest = .ok ([], rest) := by
    rw [scanFraction]
    rintro s rfl
    exact (h '.' rfl).2.1 rfl
  have hexponent : scanExponent rest = .ok (none, rest) := by
    cases rest with
    | nil => rfl
    | cons c rest =>
      obtain ⟨-, -, he, hE⟩ := h c rfl
      unfold scanExponent
      exact if_neg (not_or.mpr ⟨he, hE⟩)
  rw [scan, hs]
  refine bind_eq_ok_iff.mpr ⟨_, scanDigits_digits n h, ?_⟩
  rw [if_neg hzero]
  exact bind_eq_ok_iff.mpr ⟨_, hfraction, bind_eq_ok_iff.mpr ⟨_, hexponent, rfl⟩⟩

/-- **Written integers are read back.** -/
theorem scan_ofInt (n : Int) {rest : List Char} (h : Stops rest) :
    scan ((Decimal.ofInt n).toList ++ rest) = .ok (ofInt n, rest) := by
  cases n with
  | ofNat n =>
    refine scan_of_sign ?_ h
    rw [Decimal.toList_ofInt_ofNat, scanSign]
    -- no digit is a sign
    rintro s hs
    obtain ⟨c, digits, hdigits⟩ := List.exists_cons_of_ne_nil (Decimal.digits_ne_nil n)
    have hc : c.isDigit = true := Decimal.isDigit_of_mem_digits (hdigits ▸ List.mem_cons_self)
    rw [hdigits] at hs
    rw [(List.cons.inj hs).1] at hc
    exact absurd hc (by decide)
  | negSucc n =>
    rw [Decimal.toList_ofInt_negSucc]
    exact scan_of_sign rfl h

/-- The integers that fit into 64 bits, with or without a sign, have their value. -/
theorem value?_ofInt {n : Int} (hlow : Int64.minValue.toInt ≤ n) (hhigh : n < UInt64.size) :
    (ofInt n).value? = some (.integer n) := by
  cases n with
  | ofNat n =>
    rw [ofInt, value?]
    simp only [Decimal.value_digits]
    rw [if_neg (by simp), if_neg (by simp), if_pos (Int.ofNat_lt.mp hhigh)]
    rfl
  | negSucc n =>
    rw [ofInt, value?]
    simp only [Decimal.value_digits]
    rw [if_neg (by simp), if_pos trivial, if_pos]
    · rfl
    · rw [Int.negSucc_eq] at hlow
      omega

end Numeral

/-! ## Blanks -/

theorem isBlank_iff {c : Char} : isBlank c = true ↔ c = ' ' ∨ c = '\n' ∨ c = '\t' ∨ c = '\r' := by
  rw [isBlank, Bool.or_eq_true, Bool.or_eq_true, Bool.or_eq_true, beq_iff_eq, beq_iff_eq,
    beq_iff_eq, beq_iff_eq, or_assoc, or_assoc]

theorem isBlank_of_isDigit {c : Char} (h : c.isDigit = true) : isBlank c = false := by
  rw [Bool.eq_false_iff]
  intro hblank
  rcases isBlank_iff.mp hblank with rfl | rfl | rfl | rfl <;> exact absurd h (by decide)

namespace Numeral

theorem stops_cons {c : Char} (h : c.isDigit = false ∧ c ≠ '.' ∧ c ≠ 'e' ∧ c ≠ 'E')
    (s : List Char) : Stops (c :: s) := by
  rintro _ ⟨⟩
  exact h

theorem stops_blanks {blanks s : List Char} (h : ∀ c ∈ blanks, isBlank c = true)
    (hs : Stops s) : Stops (blanks ++ s) := by
  cases blanks with
  | nil => exact hs
  | cons c blanks =>
    refine stops_cons ?_ _
    rcases isBlank_iff.mp (h c List.mem_cons_self) with rfl | rfl | rfl | rfl <;> decide

end Numeral

/-! ## Tokens -/

theorem tokens_nil : tokens [] = [] := by rw [tokens]

theorem tokens_cons {c : Char} (h : isBlank c = false) (s : List Char) :
    tokens (c :: s) = (scanToken c s).1 :: tokens (scanToken c s).2 := by
  rw [tokens, if_neg (by simp [h])]

section Fixed

variable (s : List Char)

@[simp] theorem tokens_beginArray : tokens ('[' :: s) = .beginArray :: tokens s :=
  tokens_cons rfl s

@[simp] theorem tokens_endArray : tokens (']' :: s) = .endArray :: tokens s :=
  tokens_cons rfl s

@[simp] theorem tokens_beginObject : tokens ('{' :: s) = .beginObject :: tokens s :=
  tokens_cons rfl s

@[simp] theorem tokens_endObject : tokens ('}' :: s) = .endObject :: tokens s :=
  tokens_cons rfl s

@[simp] theorem tokens_comma : tokens (',' :: s) = .comma :: tokens s :=
  tokens_cons rfl s

@[simp] theorem tokens_colon : tokens (':' :: s) = .colon :: tokens s :=
  tokens_cons rfl s

@[simp] theorem tokens_null :
    tokens ('n' :: 'u' :: 'l' :: 'l' :: s) = .scalar .null :: tokens s :=
  tokens_cons rfl _

@[simp] theorem tokens_true :
    tokens ('t' :: 'r' :: 'u' :: 'e' :: s) = .scalar (.bool true) :: tokens s :=
  tokens_cons rfl _

@[simp] theorem tokens_false :
    tokens ('f' :: 'a' :: 'l' :: 's' :: 'e' :: s) = .scalar (.bool false) :: tokens s :=
  tokens_cons rfl _

end Fixed

/-- Blanks leave no trace. -/
theorem tokens_blanks {blanks : List Char} (h : ∀ c ∈ blanks, isBlank c = true) (s : List Char) :
    tokens (blanks ++ s) = tokens s := by
  induction blanks with
  | nil => rfl
  | cons c blanks ih =>
    rw [List.cons_append, tokens, if_pos (h c List.mem_cons_self),
      ih fun c hc ↦ h c (List.mem_cons_of_mem _ hc)]

/-- A written string is one token. -/
theorem tokens_write (s : String) (rest : List Char) :
    tokens (Text.write s ++ rest) = .scalar (.string s) :: tokens rest := by
  have hread := Text.read_flatMap_escape s.toList rest
  rw [Text.write, List.append_assoc, List.cons_append, List.singleton_append,
    tokens_cons (by decide), scanToken_string hread, String.ofList_toList]

/-- A written integer is one token. -/
theorem tokens_ofInt (n : Int) {rest : List Char} (h : Numeral.Stops rest) :
    tokens ((Decimal.ofInt n).toList ++ rest) = .scalar (.number (.ofInt n)) :: tokens rest := by
  obtain ⟨c, s, hchars, hc⟩ := Decimal.exists_cons_toList_ofInt n
  have hscan := Numeral.scan_ofInt n h
  rw [hchars, List.cons_append] at hscan ⊢
  have hblank : isBlank c = false := by
    rcases hc with rfl | hc
    · rfl
    · exact isBlank_of_isDigit hc
  rw [tokens_cons hblank, scanToken_number hc hscan]

end Json

end FragmentArchive
