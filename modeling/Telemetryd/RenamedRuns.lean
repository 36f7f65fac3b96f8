import Mathlib.Data.List.Forall2
import Telemetryd.TickText

/-!
# Runs that differ in the name of a process

Two runs of the collector on the same probes, apart from the name that one
process has.  The collector keeps the name in two of its maps, as a part of the
key, and the runs go in lockstep: at every point the second state is the first
with the keys of these two maps renamed.  Their outputs have as many lines, and
every line is the same in both or is a line of a tick; the lines of a tick may
come in another order, since the name is a part of what a map is printed by.
-/

namespace Telemetryd

open PyText Utf8

/-- The probe, with the process `p` named `x`. -/
def Probe.rename (p : Int64) (x : Comm) : Probe → Probe
  | .setupCmd a => .setupCmd (if a.pid = p then { a with comm := x } else a)
  | .completeRq a => .completeRq a
  | .nvmeTimeout a => .nvmeTimeout a
  | .interval => .interval

/-- The key of `@proc_ops`, with the process `p` named `x`. -/
def renameProc (p : Int64) (x : Comm) (k : Int64 × Int64 × Comm) :
    Int64 × Int64 × Comm :=
  if k.2.1 = p then (k.1, k.2.1, x) else k

/-- The key of `@thr_ops`, with the process `p` named `x`. -/
def renameThr (p : Int64) (x : Comm) (k : Int64 × Int64 × Int64 × Comm) :
    Int64 × Int64 × Int64 × Comm :=
  if k.2.1 = p then (k.1, k.2.1, k.2.2.1, x) else k

/-! ### Renamed maps -/

section

variable {κ : Type}

/-- The second map is the first with its keys renamed by `f`, and `g` undoes
that. -/
structure Renamed (f g : κ → κ) (m m' : Counters κ) : Prop where
  items : m'.items = m.items.map (Prod.map f id)
  back : ∀ k ∈ m.keys, g (f k) = k

/-- Empty maps are renamed. -/
theorem Renamed.empty (f g : κ → κ) : Renamed f g .empty .empty :=
  ⟨rfl, fun _ hk => absurd hk List.not_mem_nil⟩

/-- What the renaming keeps of the keys is the same in both maps. -/
theorem Renamed.map_keys {β : Type} {f g : κ → κ} {m m' : Counters κ}
    (h : Renamed f g m m')
    (part : κ → β) (hpart : ∀ k, part (f k) = part k) :
    m'.keys.map part = m.keys.map part := by
  unfold OrderedDict.keys
  rw [h.items, List.map_map, List.map_map, List.map_map]
  exact List.map_congr_left fun e _ => hpart e.1

variable [DecidableEq κ]

/-- Counting under the new key keeps a map renamed. -/
theorem Renamed.add {f g : κ → κ} {m m' : Counters κ} (h : Renamed f g m m')
    {k k' : κ} (hf : f k = k') (hg : g k' = k) (v : UInt64) :
    Renamed f g (Counters.add m k v) (Counters.add m' k' v) := by
  subst hf
  have hinj : ∀ j ∈ m.items.map Prod.fst, f j = f k → j = k := by
    intro j hj heq
    rw [← h.back j hj, heq, hg]
  have hword : Counters.word m' (f k) = Counters.word m k := by
    unfold Counters.word OrderedDict.get?
    rw [h.items, OrderedDict.look_mapKeys hinj]
  refine ⟨?_, ?_⟩
  · unfold Counters.add OrderedDict.insert
    rw [hword]
    show OrderedDict.upsert (f k) _ m'.items = _
    rw [h.items]
    exact OrderedDict.upsert_mapKeys hinj
  · intro j hj
    rcases OrderedDict.mem_keys_insert.mp hj with rfl | hj
    · exact hg
    · exact h.back j hj

end

/-! ### Two ticks -/

/-- The same entry, or two lines of ticks. -/
inductive SameEntry (o o' : PrintOrder) : Entry → Entry → Prop
  | same (e : Entry) : SameEntry o o' e e
  | tick {m m' : Maps} {l l' : PrintedLine} (h : l ∈ tickLines o m)
      (h' : l' ∈ tickLines o' m') :
      SameEntry o o' (.line l) (.line l')

section

variable (o : PrintOrder) (tick : Nat) (name : PyText)

/-- A map with two keys prints a line for each entry. -/
theorem length_print2 (m : Counters Key2) :
    (print2 o tick name m).length = m.items.length := by
  rw [print2, List.length_map, (o.perm tick name m.items).length_eq]

/-- So does one with three. -/
theorem length_print3 (m : Counters Key3) :
    (print3 o tick name m).length = m.items.length := by
  rw [print3, List.length_map, (o.perm tick name m.items).length_eq]

/-- A histogram prints its lines for each entry. -/
theorem length_printHist (m : OrderedDict Key2 Hist) :
    (printHist o tick name m).length
      = (m.items.map fun e =>
          (histLines name [e.1.1, e.1.2] e.2).length).sum := by
  rw [printHist, List.length_flatMap, ((o.perm tick name m.items).map _).sum_eq]
  simp only [List.length_map]

/-- The commands by process print a line for each entry. -/
theorem length_printProcOps (m : Counters (Int64 × Int64 × Comm)) :
    (printProcOps o tick m).length = m.items.length := by
  rw [printProcOps, List.length_map, (o.perm _ _ m.items).length_eq]

/-- So do the commands by thread. -/
theorem length_printThrOps (m : Counters (Int64 × Int64 × Int64 × Comm)) :
    (printThrOps o tick m).length = m.items.length := by
  rw [printThrOps, List.length_map, (o.perm _ _ m.items).length_eq]

end

/-- A tick has as many lines in any order and under any names. -/
theorem length_tickLines (o o' : PrintOrder) {m : Maps}
    {procOps : Counters (Int64 × Int64 × Comm)}
    {thrOps : Counters (Int64 × Int64 × Int64 × Comm)}
    (hproc : procOps.items.length = m.procOps.items.length)
    (hthr : thrOps.items.length = m.thrOps.items.length) :
    (tickLines o m).length
      = (tickLines o' { m with
          procOps := procOps, thrOps := thrOps }).length := by
  unfold tickLines
  simp only [List.length_append]
  simp only [length_print2, length_print3, length_printHist,
    length_printProcOps, length_printThrOps, hproc, hthr]

/-! ### Two runs -/

/-- The collector with other counters of names. -/
def Collector.withOps (s : Collector)
    (procOps : Counters (Int64 × Int64 × Comm))
    (thrOps : Counters (Int64 × Int64 × Int64 × Comm)) : Collector :=
  { s with maps := { s.maps with procOps := procOps, thrOps := thrOps } }

section

variable (o o' : PrintOrder) (p : Int64) (a b : Comm)

/-- The collectors of the two runs at the same point. -/
def SameBut (s s' : Collector) : Prop :=
  ∃ procOps thrOps, s' = s.withOps procOps thrOps ∧
    Renamed (renameProc p b) (renameProc p a) s.maps.procOps procOps ∧
    Renamed (renameThr p b) (renameThr p a) s.maps.thrOps thrOps

/-- At first the two runs are the same. -/
theorem sameBut_initial : SameBut p a b {} {} :=
  ⟨.empty, .empty, rfl, .empty _ _, .empty _ _⟩

/-- A tick of the two runs. -/
theorem sameEntry_interval {s s' : Collector} (h : SameBut p a b s s') :
    List.Forall₂ (SameEntry o o') (s.interval o).2 (s'.interval o').2 := by
  obtain ⟨procOps, thrOps, rfl, hproc, hthr⟩ := h
  have hlength :
      (tickLines o s.maps).length =
      (tickLines o' (s.withOps procOps thrOps).maps).length := by
    refine length_tickLines o o' ?_ ?_
    · rw [hproc.items, List.length_map]
    · rw [hthr.items, List.length_map]
  refine List.rel_append ?_ (.cons (.same .mark) .nil)
  rw [List.forall₂_map_left_iff, List.forall₂_map_right_iff]
  exact List.forall₂_of_length_eq_of_get hlength fun i hi hi' =>
    .tick (List.get_mem _ _) (List.get_mem _ _)

/-- A completion neither reads nor writes the counters of names. -/
theorem completeRq_withOps (s : Collector)
    (procOps : Counters (Int64 × Int64 × Comm))
    (thrOps : Counters (Int64 × Int64 × Int64 × Comm)) (q : CompleteRq) :
    (s.withOps procOps thrOps).completeRq q
      = ((s.completeRq q).1.withOps procOps thrOps, (s.completeRq q).2) := by
  have hnote : ∀ t : Collector, (t.withOps procOps thrOps).noteError q
      = ((t.noteError q).1.withOps procOps thrOps, (t.noteError q).2) := by
    intro t
    unfold Collector.noteError
    by_cases hstatus : q.status = 0
    · simp only [if_pos hstatus]
    · by_cases hbudget : Counters.word t.errBudget q.ctrl < 50
      · have hbudget' :
          Counters.word (t.withOps procOps thrOps).errBudget q.ctrl < 50 :=
          hbudget
        simp only [if_neg hstatus, if_pos hbudget, if_pos hbudget']
        rfl
      · have hbudget' :
          ¬ Counters.word (t.withOps procOps thrOps).errBudget q.ctrl < 50 :=
          hbudget
        simp only [if_neg hstatus, if_neg hbudget, if_neg hbudget']
        rfl
  unfold Collector.completeRq
  by_cases ht : Counters.word s.start (q.ctrl, q.qid, q.cid) ≠ 0
  · have ht' : Counters.word (s.withOps procOps thrOps).start
      (q.ctrl, q.qid, q.cid) ≠ 0 := ht
    simp only [if_pos ht, if_pos ht']
    have h := hnote { s with
      maps := s.maps.countLatency q
        (q.nsecs - Counters.word s.start (q.ctrl, q.qid, q.cid))
        ((s.cmdTgid.get? (q.ctrl, q.qid, q.cid)).getD 0) }
    have hforget :=
      congrArg (fun r : Collector × List Entry => (r.1.forget q, r.2)) h
    exact hforget
  · have ht' : ¬ Counters.word (s.withOps procOps thrOps).start
      (q.ctrl, q.qid, q.cid) ≠ 0 := ht
    simp only [if_neg ht, if_neg ht', hnote]
    rfl

/-- **One probe.**  The two runs stay in lockstep, and print the same. -/
theorem sameBut_step {s s' : Collector} (h : SameBut p a b s s')
    (probe : Probe) :
    SameBut p a b (s.step o (probe.rename p a)).1
      (s'.step o' (probe.rename p b)).1 ∧
      List.Forall₂ (SameEntry o o') (s.step o (probe.rename p a)).2
        (s'.step o' (probe.rename p b)).2 := by
  have hsame : ∀ es : List Entry, List.Forall₂ (SameEntry o o') es es :=
    fun es => List.forall₂_same.mpr fun e _ => .same e
  have hinterval := sameEntry_interval o o' p a b h
  obtain ⟨procOps, thrOps, rfl, hproc, hthr⟩ := h
  cases probe with
  | setupCmd q =>
      refine ⟨?_, .nil⟩
      by_cases hq : q.pid = p
      · simp only [Probe.rename, if_pos hq]
        refine ⟨Counters.add procOps (q.ctrl, q.pid, b) 1,
          Counters.add thrOps (q.ctrl, q.pid, q.tid, b) 1, rfl, ?_, ?_⟩
        · exact hproc.add (by simp [renameProc, hq]) (by simp [renameProc, hq])
            1
        · exact hthr.add (by simp [renameThr, hq]) (by simp [renameThr, hq]) 1
      · simp only [Probe.rename, if_neg hq]
        refine ⟨Counters.add procOps (q.ctrl, q.pid, q.comm) 1,
          Counters.add thrOps (q.ctrl, q.pid, q.tid, q.comm) 1, rfl, ?_, ?_⟩
        · exact hproc.add (by simp [renameProc, hq]) (by simp [renameProc, hq])
            1
        · exact hthr.add (by simp [renameThr, hq]) (by simp [renameThr, hq]) 1
  | completeRq q =>
      have hops := completeRq_withOps s s.maps.procOps s.maps.thrOps q
      have hprocOps : (s.completeRq q).1.maps.procOps = s.maps.procOps :=
        congrArg (fun r => r.1.maps.procOps) hops
      have hthrOps : (s.completeRq q).1.maps.thrOps = s.maps.thrOps :=
        congrArg (fun r => r.1.maps.thrOps) hops
      simp only [Probe.rename, Collector.step, completeRq_withOps]
      refine ⟨⟨procOps, thrOps, rfl, ?_, ?_⟩, hsame _⟩
      · rw [hprocOps]
        exact hproc
      · rw [hthrOps]
        exact hthr
  | nvmeTimeout q => exact ⟨⟨procOps, thrOps, rfl, hproc, hthr⟩, hsame _⟩
  | interval =>
      exact ⟨⟨.empty, .empty, rfl, .empty _ _, .empty _ _⟩, hinterval⟩

/-- **A whole run.** -/
theorem sameEntry_output {s s' : Collector} (h : SameBut p a b s s')
    (probes : List Probe) :
    List.Forall₂ (SameEntry o o') (s.output o (probes.map (Probe.rename p a)))
      (s'.output o' (probes.map (Probe.rename p b))) := by
  induction probes generalizing s s' with
  | nil => exact .nil
  | cons probe probes ih =>
      obtain ⟨hstep, hout⟩ := sameBut_step o o' p a b h probe
      exact List.rel_append hout (ih hstep)

/-- **The entries of the two runs** correspond one by one. -/
theorem sameEntry_runOutput (probes : List Probe) :
    List.Forall₂ (SameEntry o o') (runOutput o (probes.map (Probe.rename p a)))
      (runOutput o' (probes.map (Probe.rename p b))) :=
  .cons (.same _) (sameEntry_output o o' p a b (sameBut_initial p a b) probes)

end

/-! ### Reading at the same point -/

/-- The first `j` bytes of the next entry. -/
def tornEntry (j : Nat) : List Entry → Bytes
  | [] => []
  | e :: _ => e.bytes.take j

/-- A log read after `k` entries and `j` bytes of the next. -/
def cutLog (es : List Entry) (k j : Nat) : Bytes :=
  logBytes (es.take k) ++ tornEntry j (es.drop k)

/-- A log that ends within its first entry. -/
theorem cutLog_zero (e : Entry) (es : List Entry) (j : Nat) :
    cutLog (e :: es) 0 j = e.bytes.take j := rfl

/-- A cut log is the front of the log. -/
theorem cutLog_isPrefix (es : List Entry) (k j : Nat) :
    cutLog es k j <+: logBytes es := by
  have hall : logBytes es = logBytes (es.take k) ++ logBytes (es.drop k) := by
    rw [← logBytes_append, List.take_append_drop]
  rw [hall, cutLog, List.prefix_append_right_inj]
  cases es.drop k with
  | nil => exact List.prefix_refl _
  | cons e es =>
      exact (List.take_prefix j e.bytes).trans (List.prefix_append _ _)

/-- A log read behind some entries. -/
theorem cutLog_append_of_le {ds : List Entry} {k : Nat} (h : ds.length ≤ k)
    (es : List Entry) (j : Nat) :
    cutLog (ds ++ es) k j = logBytes ds ++ cutLog es (k - ds.length) j := by
  unfold cutLog
  rw [List.take_append, List.drop_append, List.take_of_length_le h,
    List.drop_of_length_le h, List.nil_append, logBytes_append,
    List.append_assoc]

/-- A log read within some entries. -/
theorem cutLog_append_of_lt {ds : List Entry} {k : Nat} (h : k < ds.length)
    (es : List Entry) (j : Nat) : cutLog (ds ++ es) k j = cutLog ds k j := by
  unfold cutLog
  rw [List.take_append_of_le_length (Nat.le_of_lt h),
    List.drop_append_of_le_length (Nat.le_of_lt h)]
  cases hd : ds.drop k with
  | nil =>
      have hlength := congrArg List.length hd
      rw [List.length_drop, List.length_nil] at hlength
      omega
  | cons e rest => rfl

end Telemetryd
