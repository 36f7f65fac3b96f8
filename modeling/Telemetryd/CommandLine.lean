import Telemetryd.Lib.OrderedDict
import Telemetryd.Lib.Shlex
import Telemetryd.Lib.Utf8

/-!
# The command line of a process

`backend/procinfo.py` reads the arguments of a process from its memory and joins
them with blanks; `parse_fio_cmdline` of `backend/adapters/fio.py` splits that
text again and sorts the pieces into options, jobs and job files.

The memory of a process is read by a helper of drgn, or, where that fails, by
walking the page tables of the process in physical memory.
-/

namespace Telemetryd

open PyText Utf8

/-- An exception: its class and its text. -/
structure Raised where
  typeName : PyText
  text : PyText
  deriving DecidableEq

/-! ### Page tables -/

/-- `prog.read(address, size, physical=True)` -/
abbrev PhysRead := Int → Nat → Except Raised Bytes

/-- `int.from_bytes(raw, "little")` -/
def fromLittleEndian (raw : Bytes) : Nat :=
  raw.foldr (fun b n => b.toNat + 256 * n) 0

/-- `e & _PTE_PRESENT` -/
def ptePresent (e : Nat) : Bool := e % 2 == 1

/-- `e & _PTE_PSE` -/
def ptePse (e : Nat) : Bool := e / 2 ^ 7 % 2 == 1

/-- `e & _PTE_PHYS_MASK` -/
def ptePhys (e : Nat) : Nat := e / 2 ^ 12 % 2 ^ 40 * 2 ^ 12

/-- An entry of a table in physical memory. -/
def pageTableEntry (read : PhysRead) (tablePa : Int) (index : Nat) :
    Except Raised Nat := do
  let raw ← read (tablePa + index * 8) 8
  pure (fromLittleEndian raw)

/-- The physical address of a virtual one and the size of its page, `none` where
an entry on the way is not present. -/
def pageOf (read : PhysRead) (pgdPa : Int) (va : Nat) :
    Except Raised (Option (Nat × Nat)) := do
  let e ← pageTableEntry read pgdPa (va / 2 ^ 39 % 512)
  if !ptePresent e then return none
  let e ← pageTableEntry read (ptePhys e) (va / 2 ^ 30 % 512)
  if !ptePresent e then return none
  if ptePse e then return some (ptePhys e + va % 2 ^ 30, 2 ^ 30)
  let e ← pageTableEntry read (ptePhys e) (va / 2 ^ 21 % 512)
  if !ptePresent e then return none
  if ptePse e then return some (ptePhys e + va % 2 ^ 21, 2 ^ 21)
  let e ← pageTableEntry read (ptePhys e) (va / 2 ^ 12 % 512)
  if !ptePresent e then return none
  return some (ptePhys e + va % 2 ^ 12, 2 ^ 12)

/-- The loop over the pages.  Every turn reads at least one byte, so `fuel` may
be the number of bytes that remain. -/
def readPages (read : PhysRead) (pgdPa : Int) :
    Nat → Nat → Nat → Except Raised Bytes
  | 0, _, _ => .ok []
  | fuel + 1, va, remaining =>
      if remaining = 0 then .ok []
      else do
        match ← pageOf read pgdPa va with
        | none => pure []
        | some (phys, size) =>
            let chunk := min remaining (size - va % size)
            let out ← read phys chunk
            let rest ← readPages read pgdPa fuel (va + chunk)
              (remaining - chunk)
            pure (out ++ rest)

/-- `_read_user_via_pagetable` -/
def readUserViaPagetable (read : PhysRead) (pageOffsetBase : Int)
    (pgdVa addr size : Nat) :
    Except Raised Bytes :=
  if pgdVa = 0 then .error ⟨"ValueError".toList, "mm->pgd 없음".toList⟩
  else readPages read (pgdVa - pageOffsetBase) size addr size

/-! ### The arguments of a process -/

/-- `_CMDLINE_MAX` -/
def cmdlineMax : Nat := 4096

/-- What is read of `task.mm`; a field that cannot be read is zero. -/
structure MmStruct where
  argStart : Nat
  argEnd : Nat
  pgd : Nat

/-- The bytes of the argument area as text, the arguments joined with blanks. -/
def argumentText (raw : Bytes) : PyText :=
  join [' '] ((splitOn ['\x00'] (decode raw)).filter (fun x => decide (x ≠ [])))

/-- `_cmdline`: the command line and why it is empty.  `accessProcessVm start n`
is what the helper of drgn returns or raises for this task. -/
def cmdline (mm : Option MmStruct)
    (accessProcessVm : Nat → Nat → Except Raised (Option Bytes))
    (read : PhysRead) (pageOffsetBase : Int) : PyText × Option PyText :=
  match mm with
  | none => ([], none)
  | some mm =>
      if mm.argStart = 0 ∨ mm.argEnd ≤ mm.argStart then
        ([], some "mm->arg_start/arg_end가 비어 있음".toList)
      else
        let n := min (mm.argEnd - mm.argStart) cmdlineMax
        match accessProcessVm mm.argStart n with
        | .ok none => ([], some "유저 메모리 읽기 실패(빈 결과)".toList)
        | .ok (some raw) => (argumentText raw, none)
        | .error helperErr =>
            match readUserViaPagetable read pageOffsetBase mm.pgd mm.argStart n
              with
            | .error e =>
                ([], some ("유저 메모리 읽기 실패: ".toList ++ helperErr.typeName ++
                  " -> 페이지테이블 폴백도 실패: ".toList ++ e.typeName ++
                    ": ".toList ++ e.text))
            | .ok [] => ([], some "유저 메모리가 매핑돼 있지 않음(스왑/미할당)".toList)
            | .ok raw => (argumentText raw, none)

/-! ### The options of fio -/

/-- The options of one job. -/
abbrev FioOpts := OrderedDict PyText PyText

/-- The result of `parse_fio_cmdline`.  The job that is being filled is the last
one. -/
structure FioCmdline where
  jobs : List FioOpts := []
  jobfiles : List PyText := []
  globals : FioOpts := .empty
  deriving DecidableEq

/-- `target[key] = val` -/
def FioCmdline.assign (parsed : FioCmdline) (key val : PyText) : FioCmdline :=
  match parsed.jobs.getLast? with
  | some cur =>
      { parsed with jobs := parsed.jobs.dropLast ++ [cur.insert key val] }
  | none => { parsed with globals := parsed.globals.insert key val }

/-- `body.split("=", 1)`, with `"1"` for a flag. -/
def splitOption (body : PyText) : PyText × PyText :=
  if '=' ∈ body
    then (body.takeWhile (· != '='), (body.dropWhile (· != '=')).drop 1)
  else (body, "1".toList)

/-- The body of the loop over the tokens. -/
def FioCmdline.token (parsed : FioCmdline) (tok : PyText) : FioCmdline :=
  if tok.head? ≠ some '-' then
    if ".fio".toList <:+ tok ∨ '=' ∉ tok then
      { parsed with jobfiles := parsed.jobfiles ++ [tok] }
    else parsed
  else
    let (key, val) := splitOption (tok.dropWhile (· == '-'))
    let key := strip key
    if key = "name".toList then
      { parsed with jobs := parsed.jobs ++ [parsed.globals.insert key val] }
    else parsed.assign key val

/-- The option loop; the first token is the program. -/
def fioOptions (tokens : List PyText) : FioCmdline :=
  (tokens.drop 1).foldl FioCmdline.token {}

/-- The tokens of a command line, split at white space if its quotes are
malformed. -/
def cmdlineTokens (line : PyText) : List PyText :=
  match Shlex.split line with
  | .ok tokens => tokens
  | .error _ => splitWords line

/-- `parse_fio_cmdline`: the options of a command line. -/
def parseFioCmdline (line : PyText) : FioCmdline :=
  fioOptions (cmdlineTokens line)

/-! ### Reading through the page tables -/

/-- The page tables map the area, and the pages have its bytes. -/
def Mapped (read : PhysRead) (pgdPa : Int) (start : Nat) (area : Bytes) :
    Prop :=
  ∀ i < area.length, ∃ phys size, pageOf read pgdPa (start + i) =
    .ok (some (phys, size)) ∧
    ∀ n, i + n ≤ area.length → (start + i) % size + n ≤ size →
      read phys n = .ok ((area.drop i).take n)

theorem size_pos_of_pageOf {read : PhysRead} {pgdPa : Int} {va phys size : Nat}
    (h : pageOf read pgdPa va = .ok (some (phys, size))) : 0 < size := by
  have hbind :
      ∀ (table : Int) (index : Nat) (f : Nat → Except Raised (Option (Nat × Nat))),
      (pageTableEntry read table index >>= f) = .ok (some (phys, size)) →
        ∃ e, f e = .ok (some (phys, size)) := by
    intro table index f hf
    cases he : pageTableEntry read table index with
    | error e =>
        rw [he] at hf
        cases hf
    | ok e =>
        rw [he] at hf
        exact ⟨e, hf⟩
  -- one step for each level of the tables
  unfold pageOf at h
  obtain ⟨pud, h⟩ := hbind _ _ _ h
  split at h
  · cases h
  obtain ⟨pmd, h⟩ := hbind _ _ _ h
  split at h
  · cases h
  split at h
  · cases h
    decide
  obtain ⟨pte, h⟩ := hbind _ _ _ h
  split at h
  · cases h
  split at h
  · cases h
    decide
  obtain ⟨page, h⟩ := hbind _ _ _ h
  split at h
  · cases h
  · cases h
    decide

/-- **The walk reads the area.** -/
theorem readPages_mapped {read : PhysRead} {pgdPa : Int} {start : Nat}
    {area : Bytes}
    (h : Mapped read pgdPa start area) (fuel : Nat) :
    ∀ i remaining, remaining ≤ fuel → i + remaining ≤ area.length →
      readPages read pgdPa fuel (start + i) remaining =
        .ok ((area.drop i).take remaining) := by
  induction fuel with
  | zero =>
      intro i remaining hfuel _
      obtain rfl : remaining = 0 := Nat.le_zero.mp hfuel
      rfl
  | succ fuel ih =>
      intro i remaining hfuel hlen
      by_cases hzero : remaining = 0
      · subst hzero
        rfl
      · obtain ⟨phys, size, hpage, hbytes⟩ := h i (by omega)
        have hsize := size_pos_of_pageOf hpage
        have hoffset : (start + i) % size < size := Nat.mod_lt _ hsize
        generalize hchunk : min remaining (size - (start + i) % size) = chunk
        have hread := hbytes chunk (by omega) (by omega)
        have hrest := ih (i + chunk) (remaining - chunk) (by omega) (by omega)
        rw [← Nat.add_assoc] at hrest
        unfold readPages
        rw [if_neg hzero, hpage]
        change (do
          let out ← read phys (min remaining (size - (start + i) % size))
          let rest ← readPages read pgdPa fuel
            (start + i + min remaining (size - (start + i) % size))
            (remaining - min remaining (size - (start + i) % size))
          pure (out ++ rest) : Except Raised Bytes) = _
        rw [hchunk, hread, hrest]
        change Except.ok (_ ++ _) = _
        rw [← List.drop_drop, ← List.take_add,
          show chunk + (remaining - chunk) = remaining by omega]

/-! ### The argument area -/

/-- `argv` in memory: each argument is followed by a NUL byte. -/
def argumentArea (argv : List PyText) : Bytes :=
  argv.flatMap (fun a => encode a ++ [0])

/-- The arguments of a program are not empty and have no NUL. -/
structure IsArgv (argv : List PyText) : Prop where
  nonempty : ∀ a ∈ argv, a ≠ []
  no_nul : ∀ a ∈ argv, '\x00' ∉ a

theorem decode_argumentArea_append (argv : List PyText) (rest : Bytes) :
    decode (argumentArea argv ++ rest) =
      argv.flatMap (fun a => a ++ ['\x00']) ++ decode rest := by
  induction argv with
  | nil => rfl
  | cons a argv ih =>
      unfold argumentArea at ih ⊢
      have hcut := decode_ascii_cut (c := 0) (by decide) (encode a)
        (argv.flatMap (fun a => encode a ++ [0]) ++ rest)
      rw [List.flatMap_cons, List.flatMap_cons, List.append_assoc,
        List.append_assoc,
        List.singleton_append, hcut, decode_encode, ih]
      simp only [List.append_assoc, List.singleton_append]
      rfl

theorem splitOn_nul {argv : List PyText} (h : ∀ a ∈ argv, '\x00' ∉ a)
    (s : PyText) :
    splitOn ['\x00'] (argv.flatMap (fun a => a ++ ['\x00']) ++ s) =
      argv ++ splitOn ['\x00'] s := by
  induction argv with
  | nil => rfl
  | cons a argv ih =>
      rw [List.flatMap_cons, List.append_assoc, List.append_assoc,
        List.singleton_append,
        splitOn_char (h a List.mem_cons_self), ih fun b hb =>
          h b (List.mem_cons_of_mem _ hb)]
      rfl

/-- The text of an area whose last argument is `last`, with or without the NUL
after it. -/
theorem argumentText_snoc {argv : List PyText} {last : PyText}
    (h : IsArgv (argv ++ [last]))
    (rest : Bytes) (hrest : rest = [] ∨ rest = [0]) :
    argumentText (argumentArea argv ++ (encode last ++ rest)) =
      join [' '] (argv ++ [last]) := by
  have hnul : ∀ a ∈ argv, '\x00' ∉ a :=
    fun a ha => h.no_nul a (List.mem_append_left _ ha)
  have hlast : '\x00' ∉ last := h.no_nul last (by simp)
  have hpieces : (splitOn ['\x00'] (decode (encode last ++ rest))).filter
      (fun x => decide (x ≠ [])) = [last] := by
    have hne : last ≠ [] := h.nonempty last (by simp)
    rcases hrest with rfl | rfl
    · have hsingle : splitOn ['\x00'] last = [last] := by
        refine splitOn_eq_singleton fun hin => hlast ?_
        exact hin.subset (List.mem_singleton.mpr rfl)
      rw [List.append_nil, decode_encode, hsingle]
      simp [hne]
    · have hcut : decode (encode last ++ [0]) =
          last ++ '\x00' :: decode [] := by
        rw [decode_ascii_cut (c := 0) (by decide), decode_encode]
        rfl
      rw [hcut, splitOn_char hlast]
      simp [splitOn, splitGo, decode, decodeFrom, hne]
  have hkeep : argv.filter (fun x => decide (x ≠ [])) = argv := by
    refine List.filter_eq_self.mpr fun a ha => decide_eq_true ?_
    exact h.nonempty a (List.mem_append_left _ ha)
  unfold argumentText
  rw [decode_argumentArea_append, splitOn_nul hnul, List.filter_append,
    hpieces, hkeep]

/-- What is read of an area that fits, but for its last NUL. -/
theorem argumentText_take {argv : List PyText} (h : IsArgv argv)
    (hlen : (argumentArea argv).length ≤ cmdlineMax + 1) :
    argumentText
      ((argumentArea argv).take (min (argumentArea argv).length cmdlineMax))
      = join [' '] argv := by
  rcases List.eq_nil_or_concat argv with rfl | ⟨init, last, rfl⟩
  · rfl
  · rw [List.concat_eq_append] at h hlen ⊢
    have harea :
        argumentArea (init ++ [last]) =
        argumentArea init ++ (encode last ++ [0]) := by
      simp [argumentArea]
    by_cases hfit : (argumentArea (init ++ [last])).length ≤ cmdlineMax
    · rw [Nat.min_eq_left hfit, List.take_length, harea]
      exact argumentText_snoc h [0] (Or.inr rfl)
    · have hmin : min (argumentArea (init ++ [last])).length cmdlineMax
          = (argumentArea (init ++ [last])).length - 1 := by omega
      have hdrop : (argumentArea (init ++ [last])).dropLast
          = argumentArea init ++ (encode last ++ []) := by
        rw [harea, ← List.append_assoc, List.dropLast_concat, List.append_nil]
      rw [hmin, ← List.dropLast_eq_take, hdrop]
      exact argumentText_snoc h [] (Or.inl rfl)

/-- The process has its arguments in memory, and they can be read: by the
helper, or, where the helper raises, through the page tables. -/
structure HasArguments (mm : MmStruct)
    (accessProcessVm : Nat → Nat → Except Raised (Option Bytes))
    (read : PhysRead) (pageOffsetBase : Int) (argv : List PyText) : Prop where
  start : mm.argStart ≠ 0
  stop : mm.argEnd = mm.argStart + (argumentArea argv).length
  memory :
    (∀ n ≤ (argumentArea argv).length,
      accessProcessVm mm.argStart n = .ok (some ((argumentArea argv).take n))) ∨
    ((∀ n, ∃ e, accessProcessVm mm.argStart n = .error e) ∧ mm.pgd ≠ 0 ∧
      Mapped read (mm.pgd - pageOffsetBase) mm.argStart (argumentArea argv))

/-- **The command line that is read.** -/
theorem cmdline_eq_join {mm : MmStruct}
    {accessProcessVm : Nat → Nat → Except Raised (Option Bytes)}
    {read : PhysRead} {pageOffsetBase : Int} {argv : List PyText}
    (hmem : HasArguments mm accessProcessVm read pageOffsetBase argv)
    (h : IsArgv argv)
    (hlen : (argumentArea argv).length ≤ cmdlineMax + 1) :
    (cmdline (some mm) accessProcessVm read pageOffsetBase).1 =
      join [' '] argv := by
  have htext := argumentText_take h hlen
  have hn : mm.argEnd - mm.argStart = (argumentArea argv).length := by
    have := hmem.stop
    omega
  unfold cmdline
  by_cases hempty : mm.argEnd ≤ mm.argStart
  · have hnil : (argumentArea argv).length = 0 := by omega
    rw [hnil] at htext
    simp only [hempty, or_true, if_true]
    rw [← htext]
    rfl
  · have hno : ¬ (mm.argStart = 0 ∨ mm.argEnd ≤ mm.argStart) :=
      not_or.mpr ⟨hmem.start, hempty⟩
    simp only [if_neg hno, hn]
    rcases hmem.memory with hread | ⟨hraise, hpgd, hmapped⟩
    · simp only [hread _ (Nat.min_le_left _ _)]
      exact htext
    · obtain ⟨e, he⟩ := hraise (min (argumentArea argv).length cmdlineMax)
      have hwalk : readUserViaPagetable read pageOffsetBase mm.pgd mm.argStart
          (min (argumentArea argv).length cmdlineMax)
          = .ok ((argumentArea argv).take
            (min (argumentArea argv).length cmdlineMax)) := by
        unfold readUserViaPagetable
        rw [if_neg hpgd]
        exact readPages_mapped hmapped _ 0 _ (Nat.le_refl _) (by omega)
      simp only [he, hwalk]
      generalize (argumentArea argv).take
        (min (argumentArea argv).length cmdlineMax) = raw at htext
      cases raw with
      | nil => rw [← htext]; rfl
      | cons b raw => exact htext

/-! ### Which arguments survive -/

/-- No argument has a character that means anything to a shell; or the quotes of
the whole line are malformed, and no argument has white space. -/
def Survives (argv : List PyText) : Prop :=
  (∀ a ∈ argv, ∀ c ∈ a, Shlex.isPlain c = true) ∨
    ((∃ e, Shlex.split (join [' '] argv) = .error e) ∧ ∀ a ∈ argv, ∀ c ∈ a,
      isSpace c = false)

/-- **The tokens are the arguments** exactly if these survive. -/
theorem cmdlineTokens_join_iff {argv : List PyText} (h : ∀ a ∈ argv, a ≠ []) :
    cmdlineTokens (join [' '] argv) = argv ↔ Survives argv := by
  have hplain := Shlex.split_join_iff h
  unfold cmdlineTokens Survives
  cases hsplit : Shlex.split (join [' '] argv) with
  | ok tokens =>
      rw [hsplit] at hplain
      simp only [reduceCtorEq, exists_false, false_and, or_false]
      rw [← hplain, Except.ok.injEq]
  | error e =>
      rw [hsplit] at hplain
      have hno : ¬ ∀ a ∈ argv, ∀ c ∈ a, Shlex.isPlain c = true := by
        intro hp
        cases hplain.mpr hp
      simp only [hno, false_or, Except.error.injEq, exists_eq', true_and]
      constructor
      · intro hwords a ha
        have hmem : a ∈ wordsBy isSpace (join [' '] argv) := by
          rw [show wordsBy isSpace (join [' '] argv) = argv from hwords]
          exact ha
        exact (of_mem_wordsBy hmem).2
      · intro hspace
        exact wordsBy_join (by decide) fun a ha => ⟨h a ha, hspace a ha⟩

/-- **Options from the memory of a process.**  The arguments fit into what is
read, but for the last NUL.  Then the tokens of the command line are the
arguments exactly if no argument has a blank, a quote or a backslash, or the
quotes of the line are malformed and no argument has white space; and where they
are, the options, jobs and job files are those of the arguments themselves. -/
theorem cmdline_options {mm : MmStruct}
    {accessProcessVm : Nat → Nat → Except Raised (Option Bytes)}
    {read : PhysRead}
    {pageOffsetBase : Int} {argv : List PyText}
    (hmem : HasArguments mm accessProcessVm read pageOffsetBase argv)
    (h : IsArgv argv)
    (hlen : (argumentArea argv).length ≤ cmdlineMax + 1) :
    let line := (cmdline (some mm) accessProcessVm read pageOffsetBase).1
    (cmdlineTokens line = argv ↔ Survives argv) ∧
      (Survives argv → parseFioCmdline line = fioOptions argv) := by
  intro line
  have hline : line = join [' '] argv := cmdline_eq_join hmem h hlen
  have hiff : cmdlineTokens line = argv ↔ Survives argv := by
    rw [hline]
    exact cmdlineTokens_join_iff h.nonempty
  refine ⟨hiff, fun hsurvives => ?_⟩
  unfold parseFioCmdline
  rw [hiff.mpr hsurvives]

/-- The reader of a process that has its arguments at `4096`. -/
def plainReader (argv : List PyText) :
    Nat → Nat → Except Raised (Option Bytes) :=
  fun _ n => .ok (some ((argumentArea argv).take n))

/-- The memory of that process. -/
def plainMm (argv : List PyText) : MmStruct :=
  ⟨4096, 4096 + (argumentArea argv).length, 0⟩

/-- No physical memory. -/
def noMemory : PhysRead := fun _ _ => .error ⟨"FaultError".toList, []⟩

theorem plain_hasArguments (argv : List PyText) :
    HasArguments (plainMm argv) (plainReader argv) noMemory 0 argv :=
  ⟨by simp [plainMm], rfl, Or.inl fun _ _ => rfl⟩

/-- The line that `_cmdline` returns for these arguments. -/
def plainLine (argv : List PyText) : PyText :=
  (cmdline (some (plainMm argv)) (plainReader argv) noMemory 0).1

/-- A job with its options. -/
def simpleJob : List PyText :=
  ["fio", "--direct", "--name=a", "--bs=4k"].map String.toList

theorem cmdline_options_simple :
    parseFioCmdline (plainLine simpleJob) = fioOptions simpleJob :=
  (cmdline_options (plain_hasArguments simpleJob) ⟨by decide, by decide⟩
    (by decide +kernel)).2
    (Or.inl (by decide))

/-- A job whose name has a blank. -/
def spacedJob : List PyText := ["fio", "--name=a b"].map String.toList

/-- A job after many options. -/
def longJob : List PyText :=
  ["fio".toList] ++ List.replicate 600 "--bs=4k".toList ++ ["--name=a".toList]

/-- **Options that do not survive.**  A name with a blank is cut at the blank,
and what follows is taken for a job file; a job behind the first 4096 bytes is
lost. -/
theorem options_lost :
    (IsArgv spacedJob ∧
      (parseFioCmdline (plainLine spacedJob)).jobs.map (·.items)
        = [[("name".toList, "a".toList)]] ∧
      (parseFioCmdline (plainLine spacedJob)).jobfiles = ["b".toList] ∧
      (fioOptions spacedJob).jobs.map (·.items) =
        [[("name".toList, "a b".toList)]]) ∧
    (IsArgv longJob ∧ (parseFioCmdline (plainLine longJob)).jobs = [] ∧
      (fioOptions longJob).jobs.length = 1) :=
  ⟨⟨⟨by decide, by decide⟩, by decide +kernel⟩,
    ⟨by decide +kernel, by decide +kernel⟩, by decide +kernel⟩

end Telemetryd
