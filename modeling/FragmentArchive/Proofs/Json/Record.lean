import FragmentArchive.Json.Record
import FragmentArchive.Proofs.Json.Codec

/-!
# Faithful records

Reading a record starts from the blank one and puts in what it meets, so what is read is the record
that was written only if the fields that were left out are already right in the draft. Whether they
are depends on the default that stands in the blank record and on the condition for leaving the
field out, which are given in different places. `Completes` walks through the fields, carries the
draft along and asks of each field just that, and of the last draft that nothing is missing in it.
-/

namespace FragmentArchive.Json.Record

variable {ρ α : Type}

/-! ## Members of one field -/

theorem member?_eq_none {f : Field ρ} {r : ρ} (h : f.member? r = none) :
    f.presence.isRequired = false := by
  rw [Field.member?] at h
  cases hpresence : f.presence with
  | required =>
    rw [hpresence] at h
    cases h
  | optional isLeftOut => rfl

theorem member?_eq_some {f : Field ρ} {r : ρ} {member : String × Value}
    (h : f.member? r = some member) : member = (f.name, f.codec.write (f.get r)) := by
  rw [Field.member?] at h
  split at h
  · exact (Option.some.inj h).symm
  · split at h
    · cases h
    · exact (Option.some.inj h).symm

/-- What was written for a field is put into the draft. -/
theorem read_write {f : Field ρ} (h : f.codec.Faithful) (r draft : ρ) :
    f.read (f.codec.write (f.get r)).tree draft = .ok (f.set (f.get r) draft) := by
  rw [Field.read, h, Except.map]

/-! ## Completing a draft -/

/-- Putting the given fields of a record into a draft of it yields the record, and the draft already
agrees with the record in the fields that are left out. -/
inductive Completes : (ρ → ρ) → List (Field ρ) → Prop
  | nil {draft : ρ → ρ} (h : ∀ r, draft r = r) : Completes draft []
  | cons {draft : ρ → ρ} {f : Field ρ} {fields : List (Field ρ)} (codec : f.codec.Faithful)
    (leftOut : ∀ r, f.member? r = none → f.set (f.get r) (draft r) = draft r)
    (rest : Completes (fun r ↦ f.set (f.get r) (draft r)) fields) : Completes draft (f :: fields)

namespace Completes

variable {draft : ρ → ρ} {fields : List (Field ρ)} {name : String} {c : Codec α}

theorem required {get : ρ → α} {set : α → ρ → ρ} (h : c.Faithful)
    (rest : Completes (fun r ↦ set (get r) (draft r)) fields) :
    Completes draft (.required name c get set :: fields) :=
  .cons h (fun _ hnone ↦ nomatch hnone) rest

theorem withDefault {get : ρ → α} {set : α → ρ → ρ} (h : c.Faithful)
    (rest : Completes (fun r ↦ set (get r) (draft r)) fields) :
    Completes draft (.withDefault name c get set :: fields) :=
  .cons h (fun _ hnone ↦ nomatch hnone) rest

/-- A field may be left out for one value only, the one that the draft has. -/
theorem leftOutWhen {isLeftOut : α → Bool} {get : ρ → α} {set : α → ρ → ρ} {a : α}
    (h : c.Faithful) (honly : ∀ x, isLeftOut x = true → x = a)
    (hset : ∀ r, set a (draft r) = draft r)
    (rest : Completes (fun r ↦ set (get r) (draft r)) fields) :
    Completes draft (.leftOutWhen isLeftOut name c get set :: fields) := by
  refine .cons h (fun r hnone ↦ ?_) rest
  have hleft : isLeftOut (get r) = true := by
    change (if isLeftOut (get r) = true then none else some (name, c.write (get r))) = none at hnone
    split at hnone
    · assumption
    · cases hnone
  change set (get r) (draft r) = draft r
  rw [honly _ hleft, hset]

theorem optional {get : ρ → Option α} {set : Option α → ρ → ρ} (h : c.Faithful)
    (hnull : ∀ a, c.write a ≠ .null) (hset : ∀ r, set none (draft r) = draft r)
    (rest : Completes (fun r ↦ set (get r) (draft r)) fields) :
    Completes draft (.optional name c get set :: fields) :=
  .leftOutWhen (h.option hnull) (fun _ ↦ Option.isNone_iff_eq_none.mp) hset rest

end Completes

/-! ## Reading the members -/

private theorem find?_name {fields : List (Field ρ)} (h : (fields.map (·.name)).Nodup)
    {f : Field ρ} (hf : f ∈ fields) : fields.find? (·.name = f.name) = some f := by
  induction fields with
  | nil => cases hf
  | cons first fields ih =>
    obtain ⟨hfirst, hfields⟩ := List.nodup_cons.mp h
    rcases List.mem_cons.mp hf with rfl | hf
    · exact List.find?_cons_of_pos (by simp)
    · have hne : first.name ≠ f.name := fun heq ↦ hfirst (List.mem_map.mpr ⟨f, hf, heq.symm⟩)
      rw [List.find?_cons_of_neg (by simpa using hne)]
      exact ih hfields hf

/-- The members that were written for the remaining fields complete the draft. -/
private theorem readMembers_written {all : List (Field ρ)} {draft : ρ → ρ}
    {fields : List (Field ρ)} (h : Completes draft fields) (r : ρ)
    (hall : ∀ f ∈ fields, all.find? (·.name = f.name) = some f)
    (hnames : (fields.map (·.name)).Nodup) (seen : List String)
    (hseen : ∀ f ∈ fields, f.name ∉ seen) :
    ∃ seen', readMembers all (Value.memberTrees (fields.filterMap (·.member? r))) seen (draft r)
        = .ok (seen', r) ∧
      (∀ name ∈ seen, name ∈ seen') ∧
      ∀ f ∈ fields, f.presence.isRequired = true → f.name ∈ seen' := by
  induction h generalizing seen with
  | nil hdone => exact ⟨seen, by rw [hdone]; rfl, fun _ ↦ id, fun _ hf ↦ nomatch hf⟩
  | @cons draft f fields hcodec hleft hrest ih =>
    obtain ⟨hfirst, hnames⟩ := List.nodup_cons.mp hnames
    have hall' : ∀ g ∈ fields, all.find? (·.name = g.name) = some g :=
      fun g hg ↦ hall g (List.mem_cons_of_mem _ hg)
    cases hmember : f.member? r with
    | none =>
      obtain ⟨seen', hread, hmono, hrequired⟩ :=
        ih hall' hnames seen fun g hg ↦ hseen g (List.mem_cons_of_mem _ hg)
      have hskip : (f :: fields).filterMap (·.member? r) = fields.filterMap (·.member? r) :=
        List.filterMap_cons_none hmember
      refine ⟨seen', ?_, hmono, fun g hg hreq ↦ ?_⟩
      · rw [hskip, ← hleft r hmember]
        exact hread
      · rcases List.mem_cons.mp hg with rfl | hg
        · rw [member?_eq_none hmember] at hreq
          cases hreq
        · exact hrequired g hg hreq
    | some member =>
      obtain rfl := member?_eq_some hmember
      have hfresh : ∀ g ∈ fields, g.name ∉ f.name :: seen := by
        intro g hg hmem
        rcases List.mem_cons.mp hmem with heq | hmem
        · exact hfirst (List.mem_map.mpr ⟨g, hg, heq⟩)
        · exact hseen g (List.mem_cons_of_mem _ hg) hmem
      obtain ⟨seen', hread, hmono, hrequired⟩ := ih hall' hnames (f.name :: seen) hfresh
      have hwritten : (f :: fields).filterMap (·.member? r) =
          (f.name, f.codec.write (f.get r)) :: fields.filterMap (·.member? r) :=
        List.filterMap_cons_some hmember
      refine ⟨seen', ?_, fun name hname ↦ hmono name (List.mem_cons_of_mem _ hname),
        fun g hg hreq ↦ ?_⟩
      · rw [hwritten, Value.memberTrees, readMembers, hall f List.mem_cons_self]
        dsimp only
        rw [if_neg (hseen f List.mem_cons_self), read_write hcodec]
        exact hread
      · rcases List.mem_cons.mp hg with rfl | hg
        · exact hmono _ List.mem_cons_self
        · exact hrequired g hg hreq

/-- **A record is read back** when its fields have different names, each of them is read back, and
they complete the blank record. -/
theorem faithful {name : String} {blank : ρ} {fields : List (Field ρ)}
    (hnames : (fields.map (·.name)).Nodup) (h : Completes (fun _ ↦ blank) fields) :
    (codec name blank fields).Faithful := by
  intro r
  obtain ⟨seen, hread, -, hrequired⟩ :=
    readMembers_written h r (fun f hf ↦ find?_name hnames hf) hnames [] fun _ _ ↦ List.not_mem_nil
  have hnone : (fields.find? fun f ↦ f.presence.isRequired && f.name ∉ seen) = none := by
    rw [List.find?_eq_none]
    intro f hf hmissing
    rw [Bool.and_eq_true, decide_eq_true_eq] at hmissing
    exact hmissing.2 (hrequired f hf hmissing.1)
  change (readMembers fields (Value.memberTrees (fields.filterMap (·.member? r))) [] blank >>= _) =
    Except.ok r
  refine bind_eq_ok_iff.mpr ⟨(seen, r), hread, bind_eq_ok_iff.mpr ⟨(), rfl, ?_⟩⟩
  rw [hnone]
  rfl

/-! ## Missing members -/

/-- Only names of members are noted as met. -/
private theorem mem_of_readMembers {fields : List (Field ρ)} {members : List (String × Value)}
    {seen seen' : List String} {draft r : ρ}
    (h : readMembers fields (Value.memberTrees members) seen draft = .ok (seen', r)) :
    ∀ name ∈ seen', name ∈ seen ∨ name ∈ members.map (·.1) := by
  induction members generalizing seen draft with
  | nil =>
    obtain ⟨rfl, -⟩ := Prod.mk.inj (Except.ok.inj h)
    exact fun name ↦ .inl
  | cons member members ih =>
    obtain ⟨key, value⟩ := member
    rw [Value.memberTrees, readMembers] at h
    intro name hname
    split at h
    · split at h
      · cases h
      · obtain ⟨draft', -, hrest⟩ := bind_eq_ok_iff.mp h
        rcases ih hrest name hname with hseen | hmem
        · rcases List.mem_cons.mp hseen with rfl | hseen
          · exact .inr List.mem_cons_self
          · exact .inl hseen
        · exact .inr (List.mem_cons_of_mem _ hmem)
    · split at h
      · cases h
      · exact (ih h name hname).imp_right (List.mem_cons_of_mem _)

/-- A document that lacks a required member is not read. -/
theorem read_ne_ok {name : String} {blank : ρ} {fields : List (Field ρ)} {f : Field ρ}
    (hf : f ∈ fields) (hrequired : f.presence.isRequired = true)
    {members : List (String × Value)} (hmissing : f.name ∉ members.map (·.1)) (r : ρ) :
    (codec name blank fields).read (Value.object members).tree ≠ .ok r := by
  intro h
  obtain ⟨⟨seen, draft⟩, hread, h⟩ := bind_eq_ok_iff.mp h
  obtain ⟨_, -, h⟩ := bind_eq_ok_iff.mp h
  have hunseen : f.name ∉ seen := fun hmem ↦
    (mem_of_readMembers hread _ hmem).elim List.not_mem_nil hmissing
  cases hfound : fields.find? fun f ↦ f.presence.isRequired && f.name ∉ seen with
  | some field =>
    rw [hfound] at h
    cases h
  | none =>
    refine List.find?_eq_none.mp hfound f hf ?_
    rw [hrequired, Bool.true_and, decide_eq_true_eq]
    exact hunseen

/-- A record is not read as one of another type that requires a field it does not have. -/
theorem read_write_ne_ok {σ : Type} {name name' : String} {blank : ρ} {blank' : σ}
    {fields : List (Field ρ)} {fields' : List (Field σ)} {f : Field ρ} (hf : f ∈ fields)
    (hrequired : f.presence.isRequired = true) (hmissing : f.name ∉ fields'.map (·.name))
    (s : σ) (r : ρ) :
    (codec name blank fields).read ((codec name' blank' fields').write s).tree ≠ .ok r := by
  refine read_ne_ok hf hrequired (fun hmem ↦ hmissing ?_) r
  obtain ⟨member, hmember, hname⟩ := List.mem_map.mp hmem
  obtain ⟨field, hfield, hwritten⟩ := List.mem_filterMap.mp hmember
  obtain rfl := member?_eq_some hwritten
  exact List.mem_map.mpr ⟨field, hfield, hname⟩

end FragmentArchive.Json.Record
