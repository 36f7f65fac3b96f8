import Telemetryd.CommandLine
import Telemetryd.Lib.PyNumber
import Telemetryd.Lib.Regex
import Telemetryd.Targets

/-!
# The application adapters

`backend/adapters`: what is known of fio and, for every other program, what can
be guessed from the names of its threads.  An adapter puts the threads of a
process into groups, and the adapter of fio compares what the options ask for
with what was measured.

Wherever Python may raise an exception there is one here, with its text.
-/

namespace Telemetryd

open PyText PyError

variable [UnicodeTextDb]

/-! ### Integers and texts -/

/-- `int(s)` of a row of digits. -/
def intOfDigits (s : PyText) : Except PyText Int :=
  let digits := s.takeWhile isDecimal
  if maxStrDigits < digits.length then
    .error ("Exceeds the limit (4300 digits) for integer string conversion: value has ".toList ++
      PyText.ofNat digits.length ++
      " digits; use sys.set_int_max_str_digits() to increase the limit".toList)
  else if digits ≠ s then
    .error ("invalid literal for int() with base 10: ".toList ++
      (PyText.repr s).take 200)
  else .ok (digitsValue s)

/-- `str(i)` -/
def strOfInt (i : Int) : Except PyText PyText :=
  if maxStrDigits < (unsign (ofInt i)).length then
    .error ("Exceeds the limit (4300 digits) for integer string conversion; ".toList ++
      "use sys.set_int_max_str_digits() to increase the limit".toList)
  else .ok (ofInt i)

/-- `float(i)`, before a multiplication by a float. -/
def floatFactor (i : Int) : Except PyText ℚ :=
  if floatLimit ≤ i.natAbs
    then .error "int too large to convert to float".toList else .ok i

/-- `a or b` of two optional texts. -/
def textOr (a b : Option PyText) : Option PyText :=
  if a.getD [] ≠ [] then a else b

/-- `needle in text` -/
def textContains (needle text : PyText) : Bool := decide (needle <:+: text)

/-! ### Expected and measured -/

/-- The first check: sizes must agree. -/
def sizeReasons (expected : WorkloadSpec) (measured : MeasuredWorkload) :
    Except PyText (List PyText) :=
  let size := expected.ioSize.getD 0
  if size ≠ 0 ∧ measured.ioSizeDominant ≠ 0 ∧ size ≠ measured.ioSizeDominant
    then do
    let want ← strOfInt size
    let got ← strOfInt measured.ioSizeDominant
    pure ["I/O 크기: 기대 ".toList ++ want ++ "B vs 실측 ".toList ++ got ++
      "B (bio 분할 또는 max_sectors_kb 제한 가능성)".toList]
  else pure []

/-- The second check: the direction. -/
def rwReasons (expected : WorkloadSpec) (measured : MeasuredWorkload) :
    List PyText :=
  match textOr expected.rw none with
  | none => []
  | some want =>
      let rw := UnicodeTextDb.lower want
      let both := rw ∈ ["randrw".toList, "rw".toList, "readwrite".toList]
      let wantRead := textContains "read".toList rw ∨ both
      let wantWrite := textContains "write".toList rw ∨ both
      (if wantRead ∧ ¬ wantWrite ∧ 1 / 20 < measured.writeRatio then
        ["R/W: 기대 ".toList ++ want ++ "인데 write가 ".toList ++
          percent0 measured.writeRatio]
       else []) ++
      (if wantWrite ∧ ¬ wantRead ∧ 1 / 20 < measured.readRatio then
        ["R/W: 기대 ".toList ++ want ++ "인데 read가 ".toList ++
          percent0 measured.readRatio]
       else [])

/-- The third check: the queue depth, within 30 per cent. -/
def depthReasons (expected : WorkloadSpec) (measured : MeasuredWorkload) :
    Except PyText (List PyText) :=
  let depth := expected.queueDepth.getD 0
  if depth ≠ 0 ∧ measured.queueDepthAvg ≠ 0 then do
    let want ← floatFactor depth
    if want * (7 / 10) ≤ measured.queueDepthAvg ∧
      measured.queueDepthAvg ≤ want * (13 / 10) then
      pure []
    else
      pure ["큐 깊이: 기대 ".toList ++ ofInt depth ++ " vs 실측 근사 ".toList ++
        fixed1 measured.queueDepthAvg ++ " (리틀의 법칙 추정치)".toList]
  else pure []

/-- The last check: sequential or random. -/
def patternReasons (expected : WorkloadSpec) (seqRatio : Option ℚ) :
    List PyText :=
  match textOr expected.pattern none, seqRatio with
  | some want, some ratio =>
      let got := if 4 / 5 ≤ ratio then "sequential".toList
        else if ratio ≤ 1 / 5 then "random".toList else "mixed".toList
      if got ≠ want then
        ["패턴: 기대 ".toList ++ want ++ " vs 실측 ".toList ++ got ++
          "(순차 비율 ".toList ++
          percent0 ratio ++ ")".toList]
      else []
  | _, _ => []

/-- `compare`: whether the expectation is met, where that can be said, and the
reasons. -/
def compare (expected : Option WorkloadSpec) (measured : MeasuredWorkload)
    (seqRatio : Option ℚ) :
    Except PyText (Option Bool × List PyText) :=
  match expected with
  | none => pure (none, [])
  | some expected =>
      if measured.iops ≤ 0 ∧ measured.ioSizeDominant = 0 then
        pure (none, ["아직 이 대상에서 관측된 I/O 없음 — 대조할 실측값이 없다".toList])
      else do
        let size ← sizeReasons expected measured
        let depth ← depthReasons expected measured
        let reasons :=
          size ++ rwReasons expected measured ++ depth ++
          patternReasons expected seqRatio
        pure (some reasons.isEmpty, reasons)

/-! ### The options of a job -/

/-- `(\d+)\s*([kKmMgGbB]?)i?[bB]?` over the whole of a stripped text. -/
def sizePattern : Regex.Pattern :=
  [Regex.group [.many 1 isDecimal], Regex.skip (.many 0 isSpace),
    Regex.group [.maybe (fun c => c ∈ "kKmMgGbB".toList)],
    Regex.skip (.maybe (fun c => c == 'i')),
    Regex.skip (.maybe (fun c => c ∈ "bB".toList)), Regex.skip .eos]

/-- `_SIZE_MULT.get(suffix.lower(), 1)` -/
def sizeSuffixMult (suffix : PyText) : Int :=
  if suffix = "k".toList ∨ suffix = "K".toList then 1024
  else if suffix = "m".toList ∨ suffix = "M".toList then 1024 * 1024
  else if suffix = "g".toList ∨ suffix = "G".toList then 1024 ^ 3
  else 1

/-- `parse_size`: a number with an optional unit, none for any other text. -/
def parseSize (text : PyText) : Except PyText (Option Int) :=
  if text = [] then pure none
  else match Regex.match? sizePattern (strip text) with
    | some [digits, suffix] => do
        let n ← intOfDigits digits
        pure (some (n * sizeSuffixMult suffix))
    | _ => pure none

/-- `_pattern_of` -/
def patternOf (rw : Option PyText) : Option PyText :=
  (textOr rw none).map (fun rw =>
    if "rand".toList.isPrefixOf rw then "random".toList
      else "sequential".toList)

/-- `int(opts[key]) if str(opts.get(key, "")).isdigit() else None` -/
def numberOpt (opts : FioOpts) (key : PyText) : Except PyText (Option Int) :=
  let text := (opts.get? key).getD []
  if text ≠ [] ∧ text.all UnicodeTextDb.isDigit then some <$> intOfDigits text
    else pure none

/-- The number of seconds of a run time such as `60s`. -/
def runtimeOpt (runtime : Option PyText) : Except PyText (Option Int) :=
  let digits := (runtime.getD []).filter isDecimal
  if digits ≠ [] then some <$> intOfDigits digits else pure none

/-- `_spec_from_opts` -/
def specFromOpts (opts : FioOpts) : Except PyText WorkloadSpec := do
  let rw := textOr (opts.get? "rw".toList) (opts.get? "readwrite".toList)
  let ioSize ← parseSize ((opts.get? "bs".toList).getD [])
  let queueDepth ← numberOpt opts "iodepth".toList
  let numjobs ← numberOpt opts "numjobs".toList
  let runtimeSec ← runtimeOpt (opts.get? "runtime".toList)
  pure
    { ioSize := ioSize
      rw := rw
      pattern := patternOf rw
      queueDepth := queueDepth
      ioengine := opts.get? "ioengine".toList
      direct := some (decide (opts.get? "direct".toList ∉
        [none, some "0".toList, some "false".toList]))
      filename := textOr (opts.get? "filename".toList)
        (opts.get? "directory".toList)
      numjobs := numjobs
      runtimeSec := runtimeSec }

/-! ### Job files -/

/-- What is left of a line without its comments. -/
def stripComment (raw : PyText) : PyText :=
  strip ((raw.takeWhile (· != ';')).takeWhile (· != '#'))

/-- The jobs so far, the options before any of them, and whether the section is
that of a job, which is then the last one. -/
structure JobFile where
  jobs : List FioOpts := []
  globalOpts : FioOpts := .empty
  inJob : Bool := false

/-- `cur[key] = val or "1"` -/
def JobFile.assign (file : JobFile) (key val : PyText) : JobFile :=
  let val := if val = [] then "1".toList else val
  match file.inJob, file.jobs.getLast? with
  | true, some cur =>
      { file with jobs := file.jobs.dropLast ++ [cur.insert key val] }
  | _, _ => { file with globalOpts := file.globalOpts.insert key val }

/-- One line of a job file. -/
def JobFile.line (file : JobFile) (raw : PyText) : JobFile :=
  let line := stripComment raw
  if line = [] then file
  else if line.head? = some '[' ∧ line.getLast? = some ']' then
    let name := strip (line.drop 1).dropLast
    if UnicodeTextDb.lower name = "global".toList
      then { file with inJob := false }
    else { file with
      jobs := file.jobs ++ [file.globalOpts.insert "name".toList name]
      inJob := true }
  else
    file.assign (strip (line.takeWhile (· != '=')))
      (strip ((line.dropWhile (· != '=')).drop 1))

/-- `parse_job_file`, of the content of the file. -/
def parseJobFile (content : PyText) : List FioOpts :=
  ((splitlines (universalNewlines content)).foldl JobFile.line {}).jobs

/-! ### fio -/

/-- `open(path).read()`: `none` where it fails with an `OSError`; it raises
anything else for a path that is no path. -/
abbrev FileReader := PyText → Except PyText (Option PyText)

/-- `matches` -/
def fioMatches (proc : ProcessInfo) : Bool :=
  decide (proc.comm = "fio".toList) ||
    decide (basename proc.exePath = "fio".toList) ||
    decide (basename (proc.cmdline.takeWhile (· != ' ')) = "fio".toList)

/-- The jobs of the first file that has any. -/
def jobsOfFiles (readFile : FileReader) :
    List PyText → Except PyText (List FioOpts)
  | [] => pure []
  | path :: rest => do
      let content ← readFile path
      let jobs := (content.map parseJobFile).getD []
      if jobs ≠ [] then pure jobs else jobsOfFiles readFile rest

/-- `_jobs` -/
def fioJobs (readFile : FileReader) (proc : ProcessInfo) :
    Except PyText (List FioOpts) :=
  let parsed := parseFioCmdline proc.cmdline
  if parsed.jobs ≠ [] then pure parsed.jobs
    else jobsOfFiles readFile parsed.jobfiles

/-- `job.get("name", "job")` -/
def jobName (job : FioOpts) : PyText :=
  (job.get? "name".toList).getD "job".toList

/-- A thread has the name of a job, as far as the kernel keeps it. -/
def threadOfJob (name comm : PyText) : Bool :=
  decide (comm ≠ []) && (comm.isPrefixOf name || (name.take 15).isPrefixOf comm)

/-- The threads of one job among those that no earlier job has; a single job
without any gets all. -/
def jobTids (threads : List (Int × PyText)) (single : Bool)
    (assigned : List Int) (job : FioOpts) :
    List Int :=
  let threadComm := OrderedDict.empty.insertAll threads
  let tids := ((threadComm.items.filter (fun e =>
    threadOfJob (jobName job) e.2)).map Prod.fst).filter
    (fun t => decide (t ∉ assigned))
  if tids = [] ∧
    single then (threads.map Prod.fst).filter (fun t => decide (t ∉ assigned))
    else tids

/-- The loop over the jobs. -/
def fioGroups (proc : ProcessInfo) (stats : List ProcessIoStat)
    (single : Bool) :
    List Int → List FioOpts → Except PyText (List LogicalGroup)
  | _, [] => pure []
  | assigned, job :: rest => do
      let tids := jobTids proc.threads single assigned job
      let spec ← specFromOpts job
      let measured :=
        measuredFromStats stats (if single then none else some tids)
      let (ok, reasons) ← compare (some spec) measured
        (stats.head?.bind (·.seqRatio))
      let groups ← fioGroups proc stats single (assigned ++ tids) rest
      pure ({ name := jobName job
              type := "fio_job".toList
              source := "cmdline_parse".toList
              threadTids := tids.insertionSort (· ≤ ·)
              expectedWorkload := some spec
              measuredWorkload := some measured
              expectationMatch := ok
              mismatchReasons := reasons } :: groups)

/-- `get_logical_groups` of the fio adapter. -/
def fioLogicalGroups (readFile : FileReader) (proc : ProcessInfo)
    (stats : List ProcessIoStat) :
    Except PyText (List LogicalGroup) := do
  let jobs ← fioJobs readFile proc
  if jobs = [] then
    pure [{ name := if proc.comm ≠ [] then proc.comm else "fio".toList
            type := "fio_job".toList
            source := "cmdline_parse".toList
            threadTids := proc.threads.map Prod.fst
            measuredWorkload := some (measuredFromStats stats none)
            mismatchReasons := ["fio job 정의를 찾지 못함(job 파일 미접근 등)".toList] }]
  else fioGroups proc stats (jobs.length == 1) [] jobs

/-- `FioAdapter`. -/
def fioAdapter (readFile : FileReader) : AppAdapter where
  name := "fio".toList
  claims := fun proc => .ok (fioMatches proc)
  getLogicalGroups := fioLogicalGroups readFile

/-! ### Every other program -/

/-- `_SUFFIX_RE.sub("", comm)` with `[-_]?\d+$`; the end may be before a last
line feed. -/
def dropSuffix (comm : PyText) : PyText :=
  let tail := if comm.getLast? = some '\n' then ['\n'] else []
  let body := if comm.getLast? = some '\n' then comm.dropLast else comm
  let stem := (body.reverse.dropWhile isDecimal).reverse
  if stem = body then comm
  else
    (if stem.getLast? = some '-' ∨ stem.getLast? = some '_' then stem.dropLast
      else stem) ++ tail

/-- `s.strip("-_")` -/
def stripDashes (s : PyText) : PyText :=
  let dash : Char → Bool := fun c => c == '-' || c == '_'
  ((s.dropWhile dash).reverse.dropWhile dash).reverse

/-- `_group_key` -/
def groupKey (comm : PyText) : PyText :=
  let base := stripDashes (dropSuffix comm)
  if base = [] then comm else base

/-- `infer_role` -/
def inferRole (stat : Option ProcessIoStat) : PyText :=
  match stat with
  | none => "I/O 없음 (control/monitor 추정)".toList
  | some stat =>
      if stat.iops ≤ 0 then "I/O 없음 (control/monitor 추정)".toList
      else
        let rwTotal := stat.readIops + stat.writeIops
        if rwTotal ≤ 0 then "admin 커맨드만 발행 (admin 추정)".toList
        else
          let writeShare := stat.writeIops / rwTotal
          let sequential := stat.seqRatio.any (fun seq => decide (4 / 5 ≤ seq))
          let random := stat.seqRatio.any (fun seq => decide (seq ≤ 1 / 5))
          if 4 / 5 ≤ writeShare then
            if sequential then "sequential write 추정".toList
            else if random then "random write 추정".toList
              else "write 위주 추정".toList
          else if writeShare ≤ 1 / 5 then
            if random then "random read 추정".toList
            else if sequential then "sequential read 추정".toList
              else "read 위주 추정".toList
          else "read/write 혼합 추정".toList

/-- The threads by the common part of their names. -/
def threadBuckets (threads : List (Int × PyText)) :
    OrderedDict PyText (List Int) :=
  threads.foldl (OrderedDict.gather (fun e => groupKey e.2) (fun _ => [])
    (fun tids e => tids ++ [e.1]))
    .empty

/-- `get_logical_groups` of the generic adapter. -/
def genericLogicalGroups (proc : ProcessInfo) (stats : List ProcessIoStat) :
    List LogicalGroup :=
  let found := (threadBuckets proc.threads).items
  let buckets := if found = [] then
      [(if proc.comm ≠ [] then proc.comm else "pid".toList ++ ofInt proc.pid,
        [proc.pid])]
    else found
  let role := inferRole stats.head?
  (buckets.insertionSort (fun a b => a.1 ≤ b.1)).map (fun (name, tids) =>
    { name := if tids.length = 1 then name else name ++ "_*".toList
      type := "thread_prefix".toList
      source := "comm_prefix".toList
      threadTids := tids.insertionSort (· ≤ ·)
      measuredWorkload := some (measuredFromStats stats
        (if 1 < buckets.length then some tids else none))
      mismatchReasons := ["역할 추정: ".toList ++ role]
      inferred := true })

/-- `GenericAdapter`, which takes what no other does. -/
def genericAdapter : AppAdapter where
  name := "generic".toList
  claims := fun _ => .ok true
  getLogicalGroups := fun proc stats => .ok (genericLogicalGroups proc stats)

/-- The adapters of the daemon, in the order in which they are asked. -/
def builtinPlugins (reCompile : PyText → Option (PyText → Bool))
    (readFile : FileReader) : Plugins where
  reCompile := reCompile
  adapters := [fioAdapter readFile, genericAdapter]
  generic := genericAdapter

end Telemetryd
