import FragmentArchive.Error

/-!
# Variant numbers

Variants are numbered consecutively in the order of their keys. All keys of the input get a number,
also those whose fragments are filtered out later, so a variant has the same number in the build
for the whole fleet and in the build for one device.
-/

namespace FragmentArchive.VariantKey

/-- The largest variant number. -/
def largestNumber : Nat := UInt32.size - 1

/-- Numbers the given keys, from a first number on. The number after the last one has to be a
number, too. -/
def numbering (keys : List VariantKey) (first : UInt32) :
    Except Error (SortedMap VariantKey UInt32) :=
  let distinct := SortedMap.ofList (keys.map fun key ↦ (key, ()))
  if first.toNat + distinct.size ≤ largestNumber then
    .ok (distinct.rank fun i ↦ first + .ofNat i)
  else .error (.configuration (.numberRange distinct.size first))

end FragmentArchive.VariantKey
