import FragmentArchive.Json.Codec
import FragmentArchive.Proofs.Json.Parsing
import FragmentArchive.Proofs.SortedMap

/-!
# Faithful codecs

A codec is faithful when it reads every document that it writes as the value the document was
written for. That is a statement about documents; together with what is known about texts it says
that a value survives in either layout. Faithfulness is inherited by everything that codecs are
composed of. The one place where something can go wrong is a missing value, which is written
`null`: it must not be confused with one that is there.
-/

open Std

namespace FragmentArchive.Json

/-! ## From documents to texts -/

namespace Codec

variable {α β : Type} {c : Codec α}

/-- A codec that reads back what it writes. -/
def Faithful (c : Codec α) : Prop := ∀ a, c.read (c.write a).tree = .ok a

/-- A written text is read like the structure of the document. -/
theorem parse_chars {layout : Layout} (h : layout.Blank) (depth : Nat) (v : Value) :
    c.parse (String.ofList (v.chars layout depth)) = c.read v.tree := by
  rw [parse, String.toList_ofList, Tree.ofTokens_chars h]
  change (do
    let a ← c.read v.tree
    if ([] : List Token).isEmpty then return a else throw (.flaw .malformed)) = c.read v.tree
  cases c.read v.tree with
  | error e => rfl
  | ok a => rfl

theorem Faithful.parse_compact (h : c.Faithful) (a : α) : c.parse (c.compact a) = .ok a :=
  (parse_chars Layout.blank_compact 0 _).trans (h a)

theorem Faithful.parse_indented (h : c.Faithful) (a : α) : c.parse (c.indented a) = .ok a :=
  (parse_chars Layout.blank_indented 0 _).trans (h a)

/-- Values survive their compact texts. Different values have different texts, and a text that was
read, in whatever spelling, is settled once its value has been written: reading and writing it again
changes neither the value nor the text. -/
structure RoundTrips (c : Codec α) : Prop where
  read_back : ∀ a, c.parse (c.compact a) = .ok a
  injective : Function.Injective c.compact
  settled : ∀ text a, c.parse text = .ok a →
    c.parse (c.compact a) = .ok a ∧ (c.parse (c.compact a)).map c.compact = .ok (c.compact a)

theorem Faithful.roundTrips (h : c.Faithful) : c.RoundTrips where
  read_back := h.parse_compact
  injective a b hab := by
    have hparse := h.parse_compact a
    rw [hab, h.parse_compact] at hparse
    exact (Except.ok.inj hparse).symm
  settled _ a _ := ⟨h.parse_compact a, by rw [h.parse_compact]; rfl⟩

/-! ## Scalars -/

theorem faithful_bool : bool.Faithful := fun _ ↦ rfl

theorem faithful_string : string.Faithful := fun _ ↦ rfl

/-- An integer type is faithful when it lies within 64 bits and its values are found again at their
places. -/
theorem faithful_integer {name : String} {toInt : α → Int} {ofInt? : Int → Option α}
    (hlow : ∀ a, Int64.minValue.toInt ≤ toInt a) (hhigh : ∀ a, toInt a < UInt64.size)
    (hback : ∀ a, ofInt? (toInt a) = some a) : (integer name toInt ofInt?).Faithful := by
  intro a
  have hfound : (Value.integer (toInt a)).tree.found = .ok (.integer (toInt a)) := by
    rw [Value.tree, Tree.found, Numeral.value?_ofInt (hlow a) (hhigh a)]
  simp only [integer, hfound, hback]

theorem faithful_uint8 : uint8.Faithful := by
  refine faithful_integer (fun n ↦ ?_) (fun n ↦ ?_) fun n ↦ ?_
  · exact Int.le_trans (by decide) (Int.natCast_nonneg _)
  · exact Int.ofNat_lt.mpr (Nat.lt_trans n.toNat_lt (by decide))
  · have := n.toNat_lt
    rw [if_pos ⟨Int.natCast_nonneg _, Int.ofNat_lt.mpr this⟩, Int.toNat_natCast, UInt8.ofNat_toNat]

theorem faithful_uint32 : uint32.Faithful := by
  refine faithful_integer (fun n ↦ ?_) (fun n ↦ ?_) fun n ↦ ?_
  · exact Int.le_trans (by decide) (Int.natCast_nonneg _)
  · exact Int.ofNat_lt.mpr (Nat.lt_trans n.toNat_lt (by decide))
  · have := n.toNat_lt
    rw [if_pos ⟨Int.natCast_nonneg _, Int.ofNat_lt.mpr this⟩, Int.toNat_natCast,
      UInt32.ofNat_toNat]

theorem faithful_uint64 : uint64.Faithful := by
  refine faithful_integer (fun n ↦ ?_) (fun n ↦ ?_) fun n ↦ ?_
  · exact Int.le_trans (by decide) (Int.natCast_nonneg _)
  · exact Int.ofNat_lt.mpr n.toNat_lt
  · rw [if_pos ⟨Int.natCast_nonneg _, Int.ofNat_lt.mpr n.toNat_lt⟩, Int.toNat_natCast,
      UInt64.ofNat_toNat]

theorem faithful_int32 : int32.Faithful := by
  refine faithful_integer (fun n ↦ ?_) (fun n ↦ ?_) fun n ↦ ?_
  · exact Int.le_trans (by decide) n.minValue_le_toInt
  · exact Int.lt_of_le_of_lt n.toInt_le (by decide)
  · rw [if_pos ⟨n.minValue_le_toInt, n.toInt_le⟩, Int32.ofInt_toInt]

theorem faithful_int64 : int64.Faithful := by
  refine faithful_integer (fun n ↦ ?_) (fun n ↦ ?_) fun n ↦ ?_
  · exact n.minValue_le_toInt
  · exact Int.lt_of_le_of_lt n.toInt_le (by decide)
  · rw [if_pos ⟨n.minValue_le_toInt, n.toInt_le⟩, Int64.ofInt_toInt]

/-! ## Composition -/

theorem Faithful.via (h : c.Faithful) {toBase : β → α} {ofBase : α → β}
    (hback : ∀ b, ofBase (toBase b) = b) : (c.via toBase ofBase).Faithful := by
  intro b
  change (c.read (c.write (toBase b)).tree).map ofBase = .ok b
  rw [h, Except.map, hback]

/-- A value that is there is never written like one that is missing. -/
theorem Faithful.option (h : c.Faithful) (hnull : ∀ a, c.write a ≠ .null) :
    c.option.Faithful := by
  intro o
  cases o with
  | none => rfl
  | some a =>
    have hread : (c.read (c.write a).tree).map some = .ok (some a) := by rw [h, Except.map]
    change c.option.read (c.write a).tree = .ok (some a)
    rw [← hread]
    cases hwrite : c.write a with
    | null => exact absurd hwrite (hnull a)
    | _ => rfl

private theorem readItems_write (h : c.Faithful) (as : List α) :
    readItems c.read (Value.itemTrees (as.map c.write)) = .ok as := by
  induction as with
  | nil => rfl
  | cons a as ih =>
    rw [List.map_cons, Value.itemTrees, readItems, h, ih]
    rfl

theorem Faithful.list (h : c.Faithful) : c.list.Faithful := by
  intro as
  change (do
    let as ← readItems c.read (Value.itemTrees (as.map c.write))
    Ending.closed.finish
    return as) = _
  rw [readItems_write h]
  rfl

private theorem readMembers_write (h : c.Faithful) (entries : List (String × α)) :
    readMembers c.read (Value.memberTrees (entries.map fun e : String × α ↦ (e.1, c.write e.2))) =
      .ok entries := by
  induction entries with
  | nil => rfl
  | cons e entries ih =>
    rw [List.map_cons, Value.memberTrees, readMembers, h, ih]
    rfl

theorem Faithful.map (h : c.Faithful) : c.map.Faithful := by
  intro m
  change (do
    let entries ← readMembers c.read
      (Value.memberTrees (m.toList.map fun e : String × α ↦ (e.1, c.write e.2)))
    Ending.closed.finish
    return SortedMap.ofList entries) = _
  rw [readMembers_write h]
  exact congrArg Except.ok (SortedMap.ofList_toList m)

/-! ## Choices -/

/-- A choice is faithful when every value has a name and no two have the same. -/
theorem faithful_choice [DecidableEq α] {choices : List (String × α)}
    (hmem : ∀ a, a ∈ choices.map (·.2)) (hnames : (choices.map (·.1)).Nodup) :
    (choice choices).Faithful := by
  intro a
  have hfound : ∃ e ∈ choices, e.2 = a ∧ choices.find? (fun e ↦ e.2 = a) = some e := by
    obtain ⟨e, he, rfl⟩ := List.mem_map.mp (hmem a)
    cases hfind : choices.find? fun e' ↦ e'.2 = e.2 with
    | none => exact absurd (List.find?_eq_none.mp hfind e he) (by simp)
    | some e' =>
      exact ⟨e', List.mem_of_find?_eq_some hfind, by simpa using List.find?_some hfind, rfl⟩
  obtain ⟨e, he, rfl, hfind⟩ := hfound
  change choose choices (((choices.find? fun e' ↦ e'.2 = e.2).map (·.1)).getD "") = .ok e.2
  rw [hfind, Option.map_some, Option.getD_some, choose, lookup_eq_some_of_mem hnames he]

end Codec

end FragmentArchive.Json
