import FragmentArchive.Naming
import FragmentArchive.Proofs.Lists

/-!
# Names in a run

The name of a fragment depends on two things only: its stem, and the number of fragments with the
same stem that were named for the first time before it, which is its *rank*. A rank is never changed
by what is named later, so a run can be told from its requests alone.

## Where names meet

The number behind a stem is counted stem by stem, and nobody looks whether the numbered name is the
plain name of another stem. Stems are free-form text, so it can be: this is the only way in which
two fragments get the same name, and whenever it is the case they do.
-/

namespace FragmentArchive

/-! ## Naming a list of fragments -/

namespace PathAssigner

variable {π : Type}

/-- The paths that an assigner gives to a list of fragments, with what it remembers then. -/
def paths (assigner : PathAssigner π) : List Fragment → π → List ArchivePath × π
  | [], naming => ([], naming)
  | f :: fs, naming =>
    let named := assigner.path f naming
    let others := paths assigner fs named.2
    (named.1 :: others.1, others.2)

theorem length_paths (assigner : PathAssigner π) (fs : List Fragment) (naming : π) :
    (assigner.paths fs naming).1.length = fs.length := by
  induction fs generalizing naming with
  | nil => rfl
  | cons f fs ih => exact congrArg (· + 1) (ih _)

theorem paths_append (assigner : PathAssigner π) (fs fs' : List Fragment) (naming : π) :
    assigner.paths (fs ++ fs') naming =
      ((assigner.paths fs naming).1 ++ (assigner.paths fs' (assigner.paths fs naming).2).1,
        (assigner.paths fs' (assigner.paths fs naming).2).2) := by
  induction fs generalizing naming with
  | nil => rfl
  | cons f fs ih => rw [List.cons_append, paths, ih]; rfl

end PathAssigner

namespace Naming

/-! ## Ranks -/

/-- The number of fragments with the same stem that were named before a fragment. -/
def rankAmong (named : List Fragment) (f : Fragment) : Nat :=
  (named.takeWhile (· ≠ f)).countP (·.stem = f.stem)

/-- The number of other fragments with the same stem that were named for the first time before a
fragment in a run. -/
def rank (requests : List Fragment) (f : Fragment) : Nat := rankAmong requests.eraseDups f

theorem rankAmong_cons_self (f : Fragment) (named : List Fragment) :
    rankAmong (f :: named) f = 0 := by
  rw [rankAmong, List.takeWhile_cons_of_neg (by simp), List.countP_nil]

theorem rankAmong_cons_of_ne {e f : Fragment} (h : e ≠ f) (named : List Fragment) :
    rankAmong (e :: named) f = rankAmong named f + if e.stem = f.stem then 1 else 0 := by
  rw [rankAmong, List.takeWhile_cons_of_pos (by simpa using h), List.countP_cons, rankAmong]
  simp only [decide_eq_true_eq]

/-- Fragments with one stem are told apart by their ranks. -/
theorem rankAmong_inj {named : List Fragment} {f g : Fragment} (hf : f ∈ named) (hg : g ∈ named)
    (hstem : f.stem = g.stem) (h : rankAmong named f = rankAmong named g) : f = g := by
  induction named with
  | nil => cases hf
  | cons e named ih =>
    by_cases hef : e = f
    · by_cases heg : e = g
      · rw [← hef, heg]
      · rw [← hef] at hstem h
        rw [rankAmong_cons_self, rankAmong_cons_of_ne heg, if_pos hstem] at h
        omega
    · by_cases heg : e = g
      · rw [← heg] at hstem h
        rw [rankAmong_cons_self, rankAmong_cons_of_ne hef, if_pos hstem.symm] at h
        omega
      · rw [rankAmong_cons_of_ne hef, rankAmong_cons_of_ne heg, hstem] at h
        exact ih ((List.mem_cons.mp hf).resolve_left (Ne.symm hef))
          ((List.mem_cons.mp hg).resolve_left (Ne.symm heg)) (by omega)

/-- The rank of a fragment is settled once it is named. -/
theorem rankAmong_append {named : List Fragment} {f : Fragment} (hf : f ∈ named)
    (later : List Fragment) : rankAmong (named ++ later) f = rankAmong named f := by
  induction named with
  | nil => cases hf
  | cons e named ih =>
    rw [List.cons_append]
    by_cases hef : e = f
    · rw [hef, rankAmong_cons_self, rankAmong_cons_self]
    · rw [rankAmong_cons_of_ne hef, rankAmong_cons_of_ne hef,
        ih ((List.mem_cons.mp hf).resolve_left (Ne.symm hef))]

/-- A new fragment comes after all fragments that were named. -/
theorem rankAmong_concat {named : List Fragment} {f : Fragment} (hf : f ∉ named) :
    rankAmong (named ++ [f]) f = named.countP (·.stem = f.stem) := by
  induction named with
  | nil => exact rankAmong_cons_self f []
  | cons e named ih =>
    rw [List.mem_cons, not_or] at hf
    rw [List.cons_append, rankAmong_cons_of_ne (Ne.symm hf.1), ih hf.2, List.countP_cons]
    simp only [decide_eq_true_eq]

/-! ## The names of a run -/

/-- What is remembered after some requests: the fragments that were named, in the order of their
first requests, with names that say their ranks. -/
def after (requests : List Fragment) : Naming :=
  ⟨requests.eraseDups.map fun f ↦ (f, pathFor f.stem (rank requests f))⟩

theorem eraseDups_concat_of_mem {requests : List Fragment} {f : Fragment} (h : f ∈ requests) :
    (requests ++ [f]).eraseDups = requests.eraseDups := by
  rw [List.eraseDups_append, List.cons_removeAll, if_neg (by simpa using h)]
  exact List.append_nil _

theorem eraseDups_concat_of_not_mem {requests : List Fragment} {f : Fragment}
    (h : f ∉ requests) : (requests ++ [f]).eraseDups = requests.eraseDups ++ [f] := by
  rw [List.eraseDups_append, List.cons_removeAll, if_pos (by simpa using h)]
  rfl

/-- A rank is never changed by later requests. -/
theorem rank_append {requests : List Fragment} {f : Fragment} (hf : f ∈ requests)
    (later : List Fragment) : rank (requests ++ later) f = rank requests f := by
  rw [rank, List.eraseDups_append, rankAmong_append (List.mem_eraseDups.mpr hf), rank]

/-- A request for a fragment that has a name changes nothing. -/
theorem after_concat_of_mem {requests : List Fragment} {f : Fragment} (hf : f ∈ requests) :
    after (requests ++ [f]) = after requests := by
  simp only [after, rank, eraseDups_concat_of_mem hf]

/-- What one more request does. -/
theorem path_after (requests : List Fragment) (f : Fragment) :
    path f (after requests) =
      (pathFor f.stem (rank (requests ++ [f]) f), after (requests ++ [f])) := by
  by_cases hf : f ∈ requests
  · have hlookup : (after requests).given.lookup f = some (pathFor f.stem (rank requests f)) :=
      lookup_map_of_mem (fun f : Fragment ↦ pathFor f.stem (rank requests f))
        (List.mem_eraseDups.mpr hf)
    rw [path, hlookup, rank_append hf, after_concat_of_mem hf]
  · -- a new fragment is counted behind those with its stem, and the others keep their numbers
    have hnamed : f ∉ requests.eraseDups := mt List.mem_eraseDups.mp hf
    have hlookup : (after requests).given.lookup f = none := by
      rw [List.lookup_eq_none_iff]
      intro e he
      obtain ⟨g, hg, rfl⟩ := List.mem_map.mp he
      refine bne_iff_ne.mpr ?_
      rintro rfl
      exact hnamed hg
    have hcount : (after requests).count f.stem = rank (requests ++ [f]) f := by
      rw [rank, eraseDups_concat_of_not_mem hf, rankAmong_concat hnamed, count, after,
        List.countP_map]
      rfl
    have hgiven : after (requests ++ [f]) =
        ⟨(after requests).given ++ [(f, pathFor f.stem (rank (requests ++ [f]) f))]⟩ := by
      rw [after, eraseDups_concat_of_not_mem hf, List.map_append, after]
      refine congrArg (fun l ↦ Naming.mk (l ++ _)) (List.map_congr_left fun g hg ↦ ?_)
      rw [rank_append (List.mem_eraseDups.mp hg)]
    rw [path, hlookup, hcount, hgiven]

/-- The requests of a run and nothing else determine its names. -/
private theorem paths_after (earlier requests : List Fragment) :
    standard.paths requests (after earlier) =
      (requests.map fun f ↦ pathFor f.stem (rank (earlier ++ requests) f),
        after (earlier ++ requests)) := by
  induction requests generalizing earlier with
  | nil => rw [List.append_nil]; rfl
  | cons f requests ih =>
    have happend : earlier ++ f :: requests = (earlier ++ [f]) ++ requests := by simp
    rw [PathAssigner.paths]
    change ((path f (after earlier)).1 :: (standard.paths requests (path f (after earlier)).2).1,
      (standard.paths requests (path f (after earlier)).2).2) = _
    rw [path_after, ih, happend, List.map_cons,
      rank_append (List.mem_append_right earlier (List.mem_singleton_self f))]

/-- **The names of a run.** Whatever was named before the run began, a fragment is named after its
stem and its rank. -/
theorem paths_of_run (n : Naming) (requests : List Fragment) :
    (standard.paths requests (standard.restart n)).1 =
      requests.map fun f ↦ pathFor f.stem (rank requests f) :=
  congrArg Prod.fst (paths_after [] requests)

/-! ## Where names meet -/

/-- A name without its extension. -/
def body (stem : String) (earlier : Nat) : List Char :=
  stem.toList ++ if earlier = 0 then [] else '_' :: Decimal.digits (earlier + 1)

theorem toList_pathFor (stem : String) (earlier : Nat) :
    (pathFor stem earlier).text.toList = body stem earlier ++ ".apk".toList := by
  rw [pathFor, body]
  split
  · simp
  · simp [Decimal.ofNat]

theorem pathFor_inj_iff {stem stem' : String} {n n' : Nat} :
    pathFor stem n = pathFor stem' n' ↔ body stem n = body stem' n' := by
  constructor
  · intro h
    have hchars := congrArg (fun p : ArchivePath ↦ p.text.toList) h
    simp only [toList_pathFor] at hchars
    exact List.append_cancel_right hchars
  · intro h
    have hchars : (pathFor stem n).text.toList = (pathFor stem' n').text.toList := by
      rw [toList_pathFor, toList_pathFor, h]
    exact congrArg ArchivePath.mk (String.toList_inj.mp hchars)

private theorem mark_not_mem_digits {n : Nat} : '_' ∉ Decimal.digits n := by
  intro h
  have := Decimal.isDigit_of_mem_digits h
  revert this
  decide

/-- A number behind a mark can be read off from the end. -/
private theorem append_mark_inj {l l' : List Char} {n n' : Nat}
    (h : l ++ '_' :: Decimal.digits n = l' ++ '_' :: Decimal.digits n') : l = l' ∧ n = n' := by
  have hdigits : l = l' ∧ Decimal.digits n = Decimal.digits n' := by
    rcases List.append_eq_append_iff.mp h with ⟨c, rfl, hc⟩ | ⟨c, rfl, hc⟩
    · cases c with
      | nil => exact ⟨(List.append_nil l).symm, (List.cons.inj hc).2⟩
      | cons x c =>
        refine absurd ?_ (mark_not_mem_digits (n := n))
        rw [(List.cons.inj hc).2]
        simp
    · cases c with
      | nil => exact ⟨List.append_nil l', (List.cons.inj hc).2.symm⟩
      | cons x c =>
        refine absurd ?_ (mark_not_mem_digits (n := n'))
        rw [(List.cons.inj hc).2]
        simp
  refine ⟨hdigits.1, ?_⟩
  rw [← Decimal.value_digits n, hdigits.2, Decimal.value_digits]

private theorem toList_eq_iff_marked {stem stem' : String} {n : Nat} :
    stem.toList = stem'.toList ++ '_' :: Decimal.digits n ↔
      stem = stem' ++ "_" ++ Decimal.ofNat n := by
  rw [← String.toList_inj]
  simp [Decimal.ofNat]

/-- **Two names are the same** only if stem and number are, or if one is the plain name of a stem
that looks like the other, numbered one. -/
theorem body_inj_iff {stem stem' : String} {n n' : Nat} :
    body stem n = body stem' n' ↔
      stem = stem' ∧ n = n' ∨
      (n = 0 ∧ n' ≠ 0 ∧ stem = stem' ++ "_" ++ Decimal.ofNat (n' + 1)) ∨
      n' = 0 ∧ n ≠ 0 ∧ stem' = stem ++ "_" ++ Decimal.ofNat (n + 1) := by
  rw [body, body]
  by_cases hn : n = 0
  · by_cases hn' : n' = 0
    · simp [hn, hn', String.toList_inj]
    · rw [if_pos hn, if_neg hn', List.append_nil, toList_eq_iff_marked]
      simp [hn, hn', Ne.symm hn']
  · by_cases hn' : n' = 0
    · rw [if_neg hn, if_pos hn', List.append_nil, eq_comm, toList_eq_iff_marked]
      simp [hn, hn']
    · -- digits have no mark, so number and stem can both be read off
      rw [if_neg hn, if_neg hn']
      constructor
      · intro h
        obtain ⟨hstem, hnumber⟩ := append_mark_inj h
        exact .inl ⟨String.toList_inj.mp hstem, by omega⟩
      · rintro (⟨rfl, rfl⟩ | ⟨h, -⟩ | ⟨h, -⟩)
        · rfl
        · exact absurd h hn
        · exact absurd h hn'

/-- The plain name of a fragment is the numbered name of another one. -/
def Shadows (requests : List Fragment) (f g : Fragment) : Prop :=
  rank requests f = 0 ∧ rank requests g ≠ 0 ∧
    f.stem = g.stem ++ "_" ++ Decimal.ofNat (rank requests g + 1)

instance (requests : List Fragment) (f g : Fragment) : Decidable (Shadows requests f g) :=
  inferInstanceAs (Decidable (_ ∧ _ ∧ _))

/-- **When two requests of a run get the same path.** -/
theorem paths_eq_iff (n : Naming) {requests : List Fragment} {i j : Nat} {f g : Fragment}
    (hf : requests[i]? = some f) (hg : requests[j]? = some g) :
    (standard.paths requests (standard.restart n)).1[i]? =
        (standard.paths requests (standard.restart n)).1[j]? ↔
      f = g ∨ Shadows requests f g ∨ Shadows requests g f := by
  rw [paths_of_run, List.getElem?_map, List.getElem?_map, hf, hg, Option.map_some, Option.map_some,
    Option.some.injEq, pathFor_inj_iff, body_inj_iff]
  refine or_congr_left ⟨fun ⟨hstem, hrank⟩ ↦ ?_, fun h ↦ by rw [h]; exact ⟨rfl, rfl⟩⟩
  exact rankAmong_inj (List.mem_eraseDups.mpr (List.mem_of_getElem? hf))
    (List.mem_eraseDups.mpr (List.mem_of_getElem? hg)) hstem hrank

/-- The second base module split of the master is named like the split for a language of that
name. -/
theorem split_shadows_second_master :
    let master : Fragment :=
      { Fragment.untargeted .base .split (.ofPackage "p") with isMaster := true }
    let second : Fragment := { master with manifest := .ofPackage "q" }
    let language : Fragment := { Fragment.untargeted .base .split (.ofPackage "p") with
      targeting := { DeviceTargeting.everyDevice with language := some "master_2" } }
    second ≠ language ∧
      (standard.paths [master, second, language] (standard.restart ∅)).1[1]? =
        (standard.paths [master, second, language] (standard.restart ∅)).1[2]? := by
  intro master second language
  refine ⟨by decide, (paths_eq_iff ∅ rfl rfl).mpr (.inr (.inr ?_))⟩
  decide +kernel

end Naming

end FragmentArchive
