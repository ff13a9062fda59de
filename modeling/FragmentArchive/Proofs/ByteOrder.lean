import FragmentArchive.Names

/-!
# The order of names is the order of their bytes

Names are ordered like their strings, code point by code point, and archives are read by programs
that compare bytes. The two orders are the same, because UTF-8 keeps the order of code points: of
two characters the smaller one has the smaller byte at the first place where their bytes differ. No
character's bytes are the beginning of another one's, so there is such a place, and it does not
matter what comes behind.
-/

open Std

namespace FragmentArchive

/-- The bytes of a string. -/
def utf8Bytes (s : String) : List UInt8 := s.toUTF8.data.toList

theorem utf8Bytes_eq (s : String) : utf8Bytes s = s.toList.flatMap String.utf8EncodeChar := by
  conv => lhs; rw [utf8Bytes, ← String.ofList_toList (s := s)]
  rw [String.toUTF8_eq_toByteArray, String.toByteArray_ofList, List.utf8Encode,
    List.data_toByteArray]

private theorem cons_ofNat_lt {m n : Nat} {as bs : List UInt8} (hn : n < 256) (hle : m ≤ n)
    (h : m = n → as < bs) : UInt8.ofNat m :: as < UInt8.ofNat n :: bs := by
  rw [List.cons_lt_cons_iff]
  rcases Nat.lt_or_eq_of_le hle with hlt | rfl
  · left
    rw [UInt8.lt_iff_toNat_lt, UInt8.toNat_ofNat', UInt8.toNat_ofNat']
    omega
  · exact .inr ⟨rfl, h rfl⟩

/-- Whatever comes behind, the bytes of a smaller character come first. -/
theorem utf8EncodeChar_append_lt {c d : Char} (h : c < d) (cs ds : List UInt8) :
    String.utf8EncodeChar c ++ cs < String.utf8EncodeChar d ++ ds := by
  have hlt : c.val.toNat < d.val.toNat := h
  have hmax : d.val.toNat < 2 ^ 21 := by
    rcases d.valid with hd | ⟨-, hd⟩ <;> omega
  simp only [String.utf8EncodeChar]
  generalize c.val.toNat = v at hlt ⊢
  generalize d.val.toNat = w at hlt hmax ⊢
  -- more bytes are meant for larger code points, and the first byte tells how many there are
  have hfirst : ∀ {m n : Nat} {as bs : List UInt8}, m < n → n < 256 →
      UInt8.ofNat m :: as < UInt8.ofNat n :: bs := fun hmn hn ↦
    cons_ofNat_lt hn (Nat.le_of_lt hmn) fun heq ↦ absurd heq (Nat.ne_of_lt hmn)
  split
  · repeat' split
    all_goals exact hfirst (by omega) (by omega)
  split
  · repeat' split
    · omega
    · refine cons_ofNat_lt (by omega) (by omega) fun h₁ ↦ ?_
      exact hfirst (by omega) (by omega)
    all_goals exact hfirst (by omega) (by omega)
  split
  · repeat' split
    iterate 2 omega
    · refine cons_ofNat_lt (by omega) (by omega) fun h₁ ↦ ?_
      refine cons_ofNat_lt (by omega) (by omega) fun h₂ ↦ ?_
      exact hfirst (by omega) (by omega)
    · exact hfirst (by omega) (by omega)
  · repeat' split
    iterate 3 omega
    refine cons_ofNat_lt (by omega) (by omega) fun h₁ ↦ ?_
    refine cons_ofNat_lt (by omega) (by omega) fun h₂ ↦ ?_
    refine cons_ofNat_lt (by omega) (by omega) fun h₃ ↦ ?_
    exact hfirst (by omega) (by omega)

theorem flatMap_utf8EncodeChar_lt {cs ds : List Char} (h : cs < ds) :
    cs.flatMap String.utf8EncodeChar < ds.flatMap String.utf8EncodeChar := by
  induction h with
  | @nil d ds =>
    obtain ⟨b, bs, hbytes⟩ := List.exists_cons_of_ne_nil (String.utf8EncodeChar_ne_nil (c := d))
    rw [List.flatMap_cons, hbytes]
    exact List.nil_lt_cons b _
  | @cons c cs ds _ ih =>
    rw [List.flatMap_cons, List.flatMap_cons]
    exact List.append_left_lt ih
  | @rel c cs d ds hcd =>
    rw [List.flatMap_cons, List.flatMap_cons]
    exact utf8EncodeChar_append_lt hcd _ _

theorem utf8Bytes_lt {s t : String} (h : compare s t = .lt) : utf8Bytes s < utf8Bytes t := by
  have hlt : s < t := compareOfLessAndEq_eq_lt.mp h
  have hlt' : s.toList < t.toList := hlt
  rw [utf8Bytes_eq, utf8Bytes_eq]
  exact flatMap_utf8EncodeChar_lt hlt'

/-- Of two strings the one with the smaller bytes is the smaller one. -/
theorem compare_lt_iff_utf8Bytes_lt {s t : String} :
    compare s t = .lt ↔ utf8Bytes s < utf8Bytes t := by
  refine ⟨utf8Bytes_lt, fun h ↦ ?_⟩
  cases hcompare : compare s t with
  | lt => rfl
  | eq =>
    obtain rfl := LawfulEqOrd.eq_of_compare hcompare
    exact absurd h (List.lt_irrefl _)
  | gt => exact absurd (utf8Bytes_lt (OrientedCmp.lt_of_gt hcompare)) (List.lt_asymm h)

end FragmentArchive
