import Mathlib.Data.Rat.Floor
import Mathlib.Tactic.Linarith
import Telemetryd.Lib.KeyedHistory
import Telemetryd.PerfRows

/-!
# Performance over time

The service answers with the numbers of the last second only.  What a client
shows of the seconds before it has kept itself: the page a history of samples
for each row of its table, sixty at most, for the charts, and `perf --watch` one
of the IOPS, forty at most, which it prints behind the row as a line of blocks.
-/

namespace Telemetryd

open PyText KeyedHistory

/-- What a client gets of a controller. -/
structure DevicePerf where
  available : Bool
  queues : List QueuePerf
  aggregate : Option QueuePerf

/-- `read_device_performance`, for the number of the controller, if its name has
one. -/
def readDevicePerformance [UnicodeDb] (file : Option Bytes)
    (instanceId : Option Int) :
    Except PyError DevicePerf :=
  match instanceId with
  | none => .ok ⟨false, [], none⟩
  | some instanceId => do
      let (queues, aggregate) ← readLatestPerformance file instanceId
      if queues = [] then return ⟨false, [], none⟩
        else return ⟨true, queues, aggregate⟩

/-! ### The page -/

/-- A point of the charts. -/
structure PerfSample where
  iops : ℚ
  readIops : ℚ
  writeIops : ℚ
  bw : ℚ
  avg : ℚ
  p99 : ℚ
  deriving DecidableEq

/-- The sample that is kept of a row. -/
def perfSample (q : QueuePerf) : PerfSample where
  iops := q.iops
  readIops := q.readIops
  writeIops := q.writeIops
  bw := q.bandwidthBytesPerSec
  avg := q.avgLatencyUs
  p99 := q.p99LatencyUs

/-- `PERF_HISTORY_LEN` -/
def perfHistoryLen : Nat := 60

/-- `state.perfHistory` -/
abbrev PerfHistory := OrderedDict PyText (List PerfSample)

/-- `shift`, when the array is too long. -/
def trimPerf (arr : List PerfSample) : List PerfSample :=
  if perfHistoryLen < arr.length then arr.drop 1 else arr

/-- `pushPerfHistory`: the newest sample last, and no more than fit. -/
def pushPerfHistory (history : PerfHistory) (key : PyText)
    (sample : PerfSample) : PerfHistory :=
  push trimPerf history (key, sample)

/-- The key of the row of all queues. -/
def aggregateKey : PyText := "agg".toList

/-- What `renderPerf` does to the histories. -/
def renderPerf (history : PerfHistory) (perf : DevicePerf) : PerfHistory :=
  if perf.available = false then history
  else
    let history :=
      perf.queues.foldl (fun h q =>
      pushPerfHistory h (ofInt q.qid) (perfSample q)) history
    match perf.aggregate with
    | none => history
    | some q => pushPerfHistory history aggregateKey (perfSample q)

/-- The rows of a message with their keys. -/
def perfRows (perf : DevicePerf) : List (PyText × PerfSample) :=
  if perf.available = false then []
  else perf.queues.map (fun q => (ofInt q.qid, perfSample q)) ++
    perf.aggregate.toList.map fun q => (aggregateKey, perfSample q)

theorem renderPerf_eq (history : PerfHistory) (perf : DevicePerf) :
    renderPerf history perf
      = (perfRows perf).foldl (fun h row =>
        pushPerfHistory h row.1 row.2) history := by
  unfold renderPerf perfRows
  cases perf.available with
  | false => rfl
  | true =>
      cases perf.aggregate with
      | none => simp [List.foldl_map]
      | some q => simp [List.foldl_map]

theorem trims_perfHistory : Trims perfHistoryLen trimPerf :=
  .of_cases (fun _ hlen => if_neg (by omega)) fun _ hlen => if_pos (by omega)

/-- **What the charts are drawn from.**  After any messages since the device was
selected, the history of a row is its samples from the messages that had data,
in order, the last sixty. -/
theorem perfHistory_of_messages (messages : List DevicePerf) (key : PyText) :
    (messages.foldl renderPerf .empty).get? key
      = kept perfHistoryLen (samplesOf key (messages.flatMap perfRows)) := by
  have hpushes : messages.foldl renderPerf .empty
      = (messages.flatMap perfRows).foldl (push trimPerf) .empty := by
    rw [List.foldl_flatMap]
    congr 1
    funext history perf
    exact renderPerf_eq history perf
  rw [hpushes]
  exact get?_pushAll trims_perfHistory (by decide) _ key

/-! ### The command line -/

/-- `_SPARK_WIDTH` -/
def sparkWidth : Nat := 40

/-- `_SPARK_CHARS` -/
def sparkChars : List Char := "▁▂▃▄▅▆▇█".toList

/-- A list is indexed out of its range. -/
inductive IndexError where
  | indexError
  deriving DecidableEq

/-- The item under a Python index. -/
def pyItem {α : Type} (l : List α) (i : Int) : Except IndexError α :=
  match if 0 ≤ i then l[i.toNat]?
    else if -l.length ≤ i then l[(l.length + i).toNat]? else none with
  | some item => .ok item
  | none => .error .indexError

/-- `int` of a quotient, toward zero. -/
def truncated (q : ℚ) : Int := q.num.tdiv q.den

/-- `_sparkline` -/
def sparkline (vals : List ℚ) : Except IndexError PyText :=
  match vals.max? with
  | none => .ok []
  | some hi =>
      if hi ≤ 0 then .ok (List.replicate vals.length '▁')
      else vals.mapM fun v => pyItem sparkChars (min 7 (truncated (v / hi * 7)))

/-- The key of a row, its label or its number. -/
abbrev SparkKey := Int ⊕ PyText

/-- `history` of `perf --watch`. -/
abbrev SparkHistory := OrderedDict SparkKey (List ℚ)

/-- `del buf[:-_SPARK_WIDTH]`, when the buffer is too long. -/
def trimSpark (buf : List ℚ) : List ℚ :=
  if sparkWidth < buf.length then buf.drop (buf.length - sparkWidth) else buf

/-- The rows that are printed of an answer. -/
def sparkRows (p : DevicePerf) : List (SparkKey × ℚ) :=
  if p.available = false then []
  else p.queues.map (fun q => (.inl q.qid, q.iops)) ++
    p.aggregate.toList.map fun q => (.inr "ALL".toList, q.iops)

/-- What `row` prints behind the rows, and the histories then. -/
def printRows (history : SparkHistory) :
    List (SparkKey × ℚ) → Except IndexError (List PyText × SparkHistory)
  | [] => .ok ([], history)
  | row :: rows => do
      let buf := trimSpark ((history.get? row.1).getD [] ++ [row.2])
      let line ← sparkline buf
      let rest ← printRows (history.insert row.1 buf) rows
      return (line :: rest.1, rest.2)

/-- What `perf --watch` prints behind its rows, answer after answer. -/
def watchPerf (history : SparkHistory) :
    List DevicePerf → Except IndexError (List (List PyText))
  | [] => .ok []
  | p :: ps => do
      let printed ← printRows history (sparkRows p)
      let rest ← watchPerf printed.2 ps
      return printed.1 :: rest

/-! ### The blocks -/

/-- How high the block of a value is, from 0 to 7. -/
def sparkHeight (hi v : ℚ) : Nat := ⌊v / hi * 7⌋₊

/-- The line of blocks of some rates. -/
def sparkText (vals : List ℚ) : PyText :=
  match vals.max? with
  | none => []
  | some hi =>
      vals.map fun v =>
        sparkChars.getD (if hi ≤ 0 then 0 else sparkHeight hi v) '█'

section

variable {vals : List ℚ} {hi v w : ℚ}

theorem truncated_of_nonneg {q : ℚ} (h : 0 ≤ q) :
    truncated q = (⌊q⌋₊ : Int) := by
  rw [truncated, Int.tdiv_eq_ediv_of_nonneg (Rat.num_nonneg.mpr h),
    Int.natCast_floor_eq_floor h]
  exact Rat.floor_def'.symm

theorem sparkHeight_mono (hhi : 0 < hi) (h : v ≤ w) :
    sparkHeight hi v ≤ sparkHeight hi w := by
  refine Nat.floor_mono ?_
  have hdiv : v / hi ≤ w / hi := div_le_div_of_nonneg_right h hhi.le
  linarith

theorem sparkHeight_self (hhi : 0 < hi) : sparkHeight hi hi = 7 := by
  have hone : hi / hi * 7 = ((7 : Nat) : ℚ) := by
    rw [div_self hhi.ne', one_mul]
    rfl
  rw [sparkHeight, hone, Nat.floor_natCast]

/-- **Only the highest value has the full block.** -/
theorem sparkHeight_eq_seven_iff (hhi : 0 < hi) (hv : 0 ≤ v) (h : v ≤ hi) :
    sparkHeight hi v = 7 ↔ v = hi := by
  constructor
  · intro hfull
    have hseven : ((7 : Nat) : ℚ) ≤ v / hi * 7 := by
      rw [← hfull]
      exact Nat.floor_le (mul_nonneg (div_nonneg hv hhi.le) (by norm_num))
    have hone : 1 ≤ v / hi := by
      have hcast : ((7 : Nat) : ℚ) = 7 := rfl
      linarith
    exact le_antisymm h ((one_le_div hhi).mp hone)
  · rintro rfl
    exact sparkHeight_self hhi

/-- Rates are drawn without an exception. -/
theorem sparkline_of_nonneg (hvals : ∀ v ∈ vals, 0 ≤ v) :
    sparkline vals = .ok (sparkText vals) := by
  unfold sparkline sparkText
  cases hmax : vals.max? with
  | none => rfl
  | some hi =>
      have hle : ∀ v ∈ vals, v ≤ hi := (List.max?_le_iff hmax).mp le_rfl
      dsimp only
      by_cases hhi : hi ≤ 0
      · simp only [if_pos hhi]
        refine congrArg Except.ok ?_
        exact (List.map_const' ..).symm
      · have hpos : 0 < hi := not_le.mp hhi
        simp only [if_neg hhi]
        refine Fallible.mapM_eq_ok_of_forall fun v hv => ?_
        have hheight : sparkHeight hi v ≤ 7 := by
          rw [← sparkHeight_self hpos]
          exact sparkHeight_mono hpos (hle v hv)
        have hindex :
            min 7 (truncated (v / hi * 7)) = (sparkHeight hi v : Int) := by
          rw [truncated_of_nonneg
            (mul_nonneg (div_nonneg (hvals v hv) hpos.le) (by norm_num))]
          exact min_eq_right (by exact_mod_cast hheight)
        have hlen : sparkHeight hi v < sparkChars.length :=
          Nat.lt_of_le_of_lt hheight (by decide)
        rw [hindex, pyItem, if_pos (Int.natCast_nonneg _), Int.toNat_natCast,
          List.getD_eq_getElem?_getD,
          List.getElem?_eq_getElem hlen]
        rfl

end

/-! ### What is watched -/

/-- What stands behind the rows of an answer that comes after other rows: the
IOPS of the same row so far, the last forty. -/
def sparkLines (past : List (SparkKey × ℚ)) : List (SparkKey × ℚ) → List PyText
  | [] => []
  | row :: rows =>
      sparkText ((samplesOf row.1 (past ++ [row])).rtake sparkWidth) ::
        sparkLines (past ++ [row]) rows

/-- The same of answer after answer. -/
def watchLines (past : List (SparkKey × ℚ)) :
    List DevicePerf → List (List PyText)
  | [] => []
  | p :: ps =>
      sparkLines past (sparkRows p) :: watchLines (past ++ sparkRows p) ps

theorem trims_spark : Trims sparkWidth trimSpark := by
  refine .of_cases (fun _ hlen => if_neg (by omega)) fun l hlen => ?_
  rw [trimSpark, if_pos (by omega), hlen, Nat.add_sub_cancel_left]

theorem printRows_eq {past rows : List (SparkKey × ℚ)}
    (hpast : ∀ row ∈ past, 0 ≤ row.2)
    (hrows : ∀ row ∈ rows, 0 ≤ row.2) :
    printRows (past.foldl (push trimSpark) .empty) rows
      = .ok (sparkLines past rows,
        (past ++ rows).foldl (push trimSpark) .empty) := by
  induction rows generalizing past with
  | nil => rw [List.append_nil]; rfl
  | cons row rows ih =>
      have hnext : ∀ r ∈ past ++ [row], 0 ≤ r.2 := by
        intro r hr
        rcases List.mem_append.mp hr with hr | hr
        · exact hpast r hr
        · rw [List.mem_singleton.mp hr]
          exact hrows row List.mem_cons_self
      have hbuf : trimSpark
          ((((past.foldl (push trimSpark) .empty).get? row.1).getD []) ++
          [row.2])
          = (samplesOf row.1 (past ++ [row])).rtake sparkWidth := by
        rw [get?_pushAll trims_spark (by decide),
          trim_kept trims_spark (by decide), samplesOf_concat,
          if_pos rfl]
      have hkept : ∀ v ∈ (samplesOf row.1 (past ++ [row])).rtake sparkWidth,
          0 ≤ v := by
        intro v hv
        exact hnext _ (mem_of_mem_samplesOf (List.mem_of_mem_drop hv))
      have hline := sparkline_of_nonneg hkept
      have hpush : (past.foldl (push trimSpark) .empty).insert row.1
            (trimSpark ((((past.foldl (push trimSpark) .empty).get? row.1).getD
              []) ++ [row.2]))
          = (past ++ [row]).foldl (push trimSpark) .empty := by
        rw [List.foldl_append]
        rfl
      have hrest := ih hnext fun r hr => hrows r (List.mem_cons_of_mem _ hr)
      rw [List.append_assoc, List.singleton_append] at hrest
      rw [printRows, hpush, hrest, hbuf, hline]
      rfl

/-- **The rates of the service are not negative.**  With a tick of the collector
at the end of the log, what is answered has rows of counters. -/
theorem sparkRows_of_lastTick [UnicodeDb] (o : PrintOrder) (m : Maps)
    (hnames : HarmlessNames o m)
    {log : Bytes} (hlog : LastTickOf o m log) (instanceId : Int) :
    ∃ p, readDevicePerformance (some log) (some instanceId) = .ok p ∧
      ∀ row ∈ sparkRows p, 0 ≤ row.2 := by
  obtain ⟨hists, hparse⟩ := parse_lastTickOf o m hnames hlog
  have hread := readLatestPerformance_of_parsed o m hparse instanceId
  have hqueues :
      ∀ q ∈ queueRows o m instanceId (fun k => (hists.get? k).getD []),
      0 ≤ q.iops := by
    intro q hq
    obtain ⟨e, he, rfl⟩ := List.mem_map.mp hq
    obtain ⟨n, hn, -⟩ :=
      counter_range o m ((mem_tickEntries o m instanceId).mp he).1
      "op_count".toList
    rw [queueRow, hn]
    positivity
  have haggregate :
      ∀ q ∈ aggregateRow o m instanceId (fun k => (hists.get? k).getD []),
      0 ≤ q.iops := by
    intro q hq
    obtain ⟨n, hn, -⟩ := sums_range o m instanceId "op_count".toList
    unfold aggregateRow at hq
    split at hq
    case isTrue => exact absurd hq (by simp)
    case isFalse =>
        rw [← Option.some.inj hq, queueRow, hn]
        positivity
  generalize queueRows o m instanceId (fun k => (hists.get? k).getD []) =
    queues at hread hqueues
  generalize aggregateRow o m instanceId (fun k => (hists.get? k).getD []) =
    aggregate at hread haggregate
  by_cases hnone : queues = []
  · refine ⟨⟨false, [], none⟩, ?_, fun row hrow => absurd hrow List.not_mem_nil⟩
    rw [readDevicePerformance, hread]
    exact if_pos hnone
  · refine ⟨⟨true, queues, aggregate⟩, ?_, ?_⟩
    · rw [readDevicePerformance, hread]
      exact if_neg hnone
    · intro row hrow
      rcases List.mem_append.mp hrow with hrow | hrow
      · obtain ⟨q, hq, rfl⟩ := List.mem_map.mp hrow
        exact hqueues q hq
      · obtain ⟨q, hq, rfl⟩ := List.mem_map.mp hrow
        exact haggregate q (Option.mem_toList.mp hq)

/-- **What `perf --watch` shows.**  Rates are not negative, and then no answer
ends it: behind each row stands the line of the IOPS of the same row in the
answers so far, the last forty. -/
theorem watchPerf_eq (answers : List DevicePerf)
    (hrates : ∀ p ∈ answers, ∀ row ∈ sparkRows p, 0 ≤ row.2) :
    watchPerf .empty answers = .ok (watchLines [] answers) := by
  have hfrom : ∀ past : List (SparkKey × ℚ), (∀ row ∈ past, 0 ≤ row.2) →
      watchPerf (past.foldl (push trimSpark) .empty) answers =
        .ok (watchLines past answers) := by
    induction answers with
    | nil => exact fun _ _ => rfl
    | cons p ps ih =>
        intro past hpast
        have hrows := hrates p List.mem_cons_self
        have hnext : ∀ row ∈ past ++ sparkRows p, 0 ≤ row.2 :=
          List.forall_mem_append.mpr ⟨hpast, hrows⟩
        rw [watchPerf, printRows_eq hpast hrows]
        change (watchPerf _ ps >>= fun rest => pure _) = _
        rw [ih (fun q hq => hrates q (List.mem_cons_of_mem _ hq)) _ hnext]
        rfl
  exact hfrom [] fun _ h => absurd h List.not_mem_nil

/-- Two answers about one queue. -/
theorem watchPerf_eq_twoAnswers :
    let answer : ℚ → DevicePerf :=
  fun iops => ⟨true, [⟨1, iops, iops, 0, 0, 0, 0, 0, 0, 0⟩], none⟩
    watchPerf .empty [answer 10, answer 20] =
      .ok [["█".toList], ["▄█".toList]] :=
  (watchPerf_eq _ (by decide +kernel)).trans (by decide +kernel)

end Telemetryd
