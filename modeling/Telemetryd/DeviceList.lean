import Mathlib.Data.List.Dedup
import Mathlib.Data.List.MinMax
import Mathlib.Data.List.Sort
import Telemetryd.EventLines
import Telemetryd.QueueSnapshots

/-!
# The list of the devices

`list_devices` of `services/queues/service.py` names each controller once that
has a disk, and every other request looks a name up again.  The two go through
the disks on their own, the one for the numbers of the controllers, the other
for the disk with the smallest namespace, and a name that is looked up need not
be one of the list.
-/

namespace Telemetryd

open PyText PyError Regex

/-- `list_devices`.  The set of the numbers is listed in its order. -/
def listDevices (k : BlockLayer) : List PyText :=
  let instances := k.disks.filterMap fun disk =>
    (diskNumbers disk.diskName).map Prod.fst
  (instances.dedup.insertionSort (· ≤ ·)).map fun i =>
    "nvme".toList ++ PyText.ofNat i

/-- The number of the namespace in the name of its disk. -/
def nsidOf (disk : NamespaceDisk) : Nat :=
  ((diskNumbers disk.diskName).map Prod.snd).getD 0

/-! ### The disk that is found -/

/-- The disk that is found is the first of those with the smallest namespace. -/
theorem findAnyNamespaceDisk_eq_argmin (k : BlockLayer) (inst : Int) :
    findAnyNamespaceDisk k.disks inst =
      (namespaceDisks k inst).argmin nsidOf := by
  have hfold :
      ∀ (disks : List NamespaceDisk) (best : Option (Nat × NamespaceDisk)),
      (∀ b ∈ best, b.1 = nsidOf b.2) →
      (disks.foldl (betterDisk inst) best).map Prod.snd =
        (disks.filter fun d => (diskNumbers d.diskName).any fun n =>
          decide ((n.1 : Int) = inst)).foldl
          (List.argAux fun b c => nsidOf b < nsidOf c) (best.map Prod.snd) := by
    intro disks
    induction disks with
    | nil => exact fun _ _ => rfl
    | cons disk disks ih =>
        intro best hbest
        rw [List.foldl_cons, List.filter_cons]
        cases hnumbers : diskNumbers disk.diskName with
        | none =>
            simp only [betterDisk, hnumbers, Option.any_none,
              Bool.false_eq_true, if_false]
            exact ih best hbest
        | some numbers =>
            obtain ⟨i, nsid⟩ := numbers
            have hnsid : nsidOf disk = nsid := by simp [nsidOf, hnumbers]
            simp only [betterDisk, hnumbers, Option.any_some, decide_eq_true_eq]
            by_cases hi : (i : Int) = inst
            case neg =>
              rw [if_neg hi, if_neg fun h => hi h.1]
              exact ih best hbest
            case pos =>
              have hdisk : ∀ b ∈ some (nsid, disk), b.1 = nsidOf b.2 :=
                fun b hb => Option.some.inj hb ▸ hnsid.symm
              rw [if_pos hi, List.foldl_cons]
              cases best with
              | none =>
                  rw [if_pos ⟨hi, fun _ h => nomatch h⟩]
                  exact ih _ hdisk
              | some b =>
                  have hiff : nsidOf disk < nsidOf b.2 ↔ nsid < b.1 := by
                    rw [hnsid, hbest b rfl]
                  have haux : List.argAux (fun b c =>
                      nsidOf b < nsidOf c) (some b.2) disk =
                      if nsid < b.1 then some disk else some b.2 :=
                        if_congr hiff rfl rfl
                  rw [Option.map_some, haux]
                  by_cases hless : nsid < b.1
                  · rw [if_pos ⟨hi, fun c hc => Option.some.inj hc ▸ hless⟩,
                      if_pos hless]
                    exact ih _ hdisk
                  · rw [if_neg fun h => hless (h.2 b rfl), if_neg hless]
                    exact ih _ hbest
  exact hfold k.disks none fun _ h => nomatch h

/-! ### The numbers in a name -/

theorem ofDigitChars_lt {ds : PyText} (h : ∀ c ∈ ds, c.isDigit = true) :
    Nat.ofDigitChars 10 ds 0 < 10 ^ ds.length := by
  induction ds using List.reverseRecOn with
  | nil => decide
  | append_singleton ds d ih =>
      have hds := ih fun c hc => h c (List.mem_append_left _ hc)
      have hd : d.toNat - '0'.toNat < 10 := by
        have := h d (by simp)
        simp only [Char.isDigit, Bool.and_eq_true, decide_eq_true_eq] at this
        have hle : d.toNat ≤ 57 := this.2
        simp
        omega
      rw [Nat.ofDigitChars_append, Nat.ofDigitChars_cons, Nat.ofDigitChars_nil,
        List.length_append,
        List.length_singleton, Nat.pow_succ]
      omega

/-- A number in the name of a disk has no more digits than the name. -/
theorem lt_of_diskNumbers {diskName : PyText} {i nsid : Nat}
    (h : diskNumbers diskName = some (i, nsid)) :
    i < 10 ^ diskName.length := by
  unfold diskNumbers at h
  split at h
  case h_2 => cases h
  case h_1 inst ns hmatch =>
    obtain ⟨rfl, -⟩ := Prod.mk.inj (Option.some.inj h)
    have hmem : [inst, ns] ∈ Regex.run diskPattern diskName :=
      List.mem_of_mem_head? hmatch
    have hlen := length_le_of_mem_run hmem inst List.mem_cons_self
    obtain ⟨r, rfl, hrun⟩ := mem_run_text hmem
    obtain ⟨x, r', caps, hx, -, heq⟩ := mem_run_cons hrun
    obtain ⟨rfl, -⟩ := List.cons.inj heq
    rw [group, runPieces_singleton] at hx
    have hdigits := (sound_of_mem_splits (List.mem_filter.mp hx).1).2
    exact lt_of_lt_of_le (ofDigitChars_lt hdigits)
      (Nat.pow_le_pow_right (by decide) hlen)

/-- The numbers of the controllers that have a disk. -/
theorem mem_instances {k : BlockLayer} {i : Nat} :
    i ∈ k.disks.filterMap (fun disk =>
      (diskNumbers disk.diskName).map Prod.fst) ↔
      ((namespaceDisks k i).argmin nsidOf).isSome := by
  have hsome : ((namespaceDisks k i).argmin nsidOf).isSome ↔
      ∃ d, d ∈ namespaceDisks k i := by
    rw [Option.isSome_iff_ne_none, ne_eq, List.argmin_eq_none]
    exact ⟨List.exists_mem_of_ne_nil _, fun ⟨d, hd⟩ => List.ne_nil_of_mem hd⟩
  rw [hsome]
  simp only [List.mem_filterMap, Option.map_eq_some_iff, namespaceDisks,
    List.mem_filter,
    Option.any_eq_true, decide_eq_true_eq, Int.natCast_inj]

section

variable [UnicodeDb]

/-- A name of the list has its number. -/
theorem instanceOf_nvme {i : Nat} (h : i < 10 ^ maxStrDigits) :
    instanceOf ("nvme".toList ++ PyText.ofNat i) = .ok (i : Int) := by
  have hmatch : Regex.match? devicePattern ("nvme".toList ++ PyText.ofNat i) =
      some [PyText.ofNat i] := by
    have hrun : run [numGroup, skip .eos] (PyText.ofNat i ++ [])
        = (run [skip .eos] []).map (fun caps => PyText.ofNat i :: caps) :=
      run_numGroup i (notStarting_nil _) (blocks_eos (by decide) [])
    rw [List.append_nil] at hrun
    unfold Regex.match? devicePattern
    rw [run_text_append]
    exact congrArg List.head? hrun
  have hread : pyInt (PyText.ofNat i) = .ok (i : Int) :=
    (pyInt_ofInt_eq_ok (i := (i : Int))).mpr ⟨h, rfl⟩
  unfold instanceOf
  rw [hmatch]
  exact congrArg (Except.mapError DeviceError.raised) hread

/-- What a lookup finds. -/
theorem lookupDevice_eq_ok {k : BlockLayer} {device : PyText}
    {disk : NamespaceDisk} :
    lookupDevice k device = .ok disk ↔
      ∃ inst, instanceOf device = .ok inst ∧
        (namespaceDisks k inst).argmin nsidOf = some disk := by
  unfold lookupDevice
  cases hinst : instanceOf device with
  | error e => exact ⟨(fun h => nomatch h), fun ⟨_, h, _⟩ => nomatch h⟩
  | ok inst =>
      rw [bind, Except.instMonad]
      dsimp only [Except.bind]
      rw [findAnyNamespaceDisk_eq_argmin]
      cases hfound : (namespaceDisks k inst).argmin nsidOf with
      | none =>
          refine ⟨(fun h => nomatch h), fun ⟨i, hi, hdisk⟩ => ?_⟩
          obtain rfl := Except.ok.inj hi
          exact absurd (hfound.symm.trans hdisk) (by simp)
      | some found =>
          refine ⟨fun h =>
            ⟨inst, rfl, hfound.trans (congrArg some (Except.ok.inj h))⟩,
            fun ⟨i, hi, hdisk⟩ => ?_⟩
          obtain rfl := Except.ok.inj hi
          exact congrArg Except.ok (Option.some.inj (hfound.symm.trans hdisk))

/-- **The list and the lookups.**  The list names the controllers that have a
disk, each of them once, in the order of their numbers.  A string is looked up
successfully if and only if its number is that of a device of the list, as that
of its own name is, and the lookup leads to the first of the disks with the
smallest namespace. -/
theorem lookup_of_listed (k : BlockLayer)
    (hnames : ∀ d ∈ k.disks, d.diskName.length ≤ maxStrDigits) :
    ∃ insts : List Nat, insts.Pairwise (· < ·) ∧
      listDevices k = insts.map (fun i => "nvme".toList ++ PyText.ofNat i) ∧
      (∀ i : Nat, i ∈ insts ↔ ((namespaceDisks k i).argmin nsidOf).isSome) ∧
      (∀ i ∈ insts, instanceOf ("nvme".toList ++ PyText.ofNat i) =
        .ok (i : Int)) ∧
      ∀ device disk, lookupDevice k device = .ok disk ↔
        ∃ i ∈ insts, instanceOf device = .ok (i : Int) ∧
          (namespaceDisks k i).argmin nsidOf = some disk := by
  set instances := k.disks.filterMap fun disk =>
    (diskNumbers disk.diskName).map Prod.fst with hdef
  have hmem : ∀ i, i ∈ instances.dedup.insertionSort (· ≤ ·) ↔
      ((namespaceDisks k i).argmin nsidOf).isSome := by
    intro i
    rw [List.mem_insertionSort, List.mem_dedup, hdef, mem_instances]
  refine ⟨instances.dedup.insertionSort (· ≤ ·), ?_, rfl, hmem, fun i hi => ?_,
    fun device disk => ?_⟩
  · have hsorted : (instances.dedup.insertionSort (· ≤ ·)).Pairwise (· ≤ ·) :=
      List.pairwise_insertionSort _ _
    have hnodup : (instances.dedup.insertionSort (· ≤ ·)).Nodup :=
      (List.perm_insertionSort _ _).nodup_iff.mpr (List.nodup_dedup _)
    exact (hsorted.and hnodup).imp fun h => lt_of_le_of_ne h.1 h.2
  · have hsome := (hmem i).mp hi
    obtain ⟨disk, hdisk, hfst⟩ :=
      List.mem_filterMap.mp (mem_instances.mpr hsome)
    obtain ⟨⟨j, nsid⟩, hnumbers, rfl⟩ := Option.map_eq_some_iff.mp hfst
    have hlt := lt_of_lt_of_le (lt_of_diskNumbers hnumbers)
      (Nat.pow_le_pow_right (by decide) (hnames disk hdisk))
    exact instanceOf_nvme hlt
  · rw [lookupDevice_eq_ok]
    constructor
    · rintro ⟨inst, hinst, hdisk⟩
      have hfound := List.argmin_mem (Option.mem_def.mpr hdisk)
      obtain ⟨n, -, hn⟩ :=
        (Option.any_eq_true _ _).mp (List.mem_filter.mp hfound).2
      obtain rfl := of_decide_eq_true hn
      exact ⟨n.1, (hmem n.1).mpr (Option.isSome_iff_exists.mpr ⟨disk, hdisk⟩),
        hinst, hdisk⟩
    · rintro ⟨i, -, hinst, hdisk⟩
      exact ⟨i, hinst, hdisk⟩

end

section

attribute [local instance] UnicodeDb.ascii

/-- Two controllers, of which the one with number 10 has two namespaces. -/
def threeDisks : BlockLayer :=
  let dev : NvmeDevState :=
    ⟨0, 2, none, none, 0, 0, fun qid => ⟨qid, 64, 0, 0, 0, 0⟩⟩
  { disks := [⟨"nvme10n2".toList, 1, dev⟩, ⟨"nvme2n1".toList, 2, dev⟩,
    ⟨"nvme10n1".toList, 3, dev⟩]
    busyIter := fun _ _ => []
    iommuEnabled := false }

/-- A name that is not of the list leads to the controller of its number. -/
theorem lookup_of_listed_threeDisks :
    "nvme010".toList ∉ listDevices threeDisks ∧
    ∃ disk, lookupDevice threeDisks "nvme010".toList = .ok disk ∧
      disk.queue = 3 := by
  obtain ⟨insts, -, -, -, -, hlookup⟩ := lookup_of_listed threeDisks (by decide)
  obtain ⟨i, hi, hinst, hdisk⟩ := (hlookup "nvme10".toList _).mp rfl
  refine ⟨by decide, _, (hlookup "nvme010".toList _).mpr ⟨i, hi, ?_, hdisk⟩,
    rfl⟩
  rw [← hinst]
  rfl

end

end Telemetryd
