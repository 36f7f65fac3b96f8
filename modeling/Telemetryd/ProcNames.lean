import Telemetryd.PerfLines
import Telemetryd.ProcStats

/-!
# Names in the process statistics

The parser of the process maps reads the name of a process back from a line,
whatever brackets, blanks and numbers are in it, and adds the counter of the
line to the entry of the process.
-/

namespace Telemetryd

open PyText Regex Utf8

/-! ### Lines with a name -/

section

variable [UnicodeDb]

/-- An integer key and its comma are one capture. -/
theorem run_keyThen (k : Int) (rest : Pattern) (t : PyText) :
    run (keyThen rest) (ofInt k ++ (", ".toList ++ t)) =
      (run rest t).map (fun caps => ofInt k :: caps) := by
  have hcomma : NotStarting isDecimal (", ".toList ++ t) :=
    notStarting_decimal (by decide) (by decide) _
  have hblocks : Blocks Char.isDigit (text ", ".toList :: rest) :=
    blocks_text (by decide) [' '] _
  rw [keyThen, run_intGroup k hcomma hblocks, run_text_append]

/-- The closing bracket and the value are the last capture. -/
theorem run_valueEnd (v : Nat) :
    run valueEnd ([']', ':'] ++ (' ' :: ofNat v)) = [[ofNat v]] := by
  have hnil : run [skip .eos] [] = [[]] := run_eos_nil []
  rw [valueEnd, run_text_append, run_lineValue (blocks_eos (by decide) []) hnil]

/-- **The name is read back**, whatever brackets and numbers are in it: it ends
at the last closing bracket. -/
theorem head?_run_name {comm : Comm} (h : '\n' ∉ decode comm.bytes) (v : Nat) :
    (run (group [.many 0 isDot] :: valueEnd)
      (decode comm.bytes ++ ([']', ':'] ++ (' ' :: ofNat v)))).head?
      = some [decode comm.bytes, ofNat v] := by
  refine head?_run_longest true ?_ ?_ ?_
  · intro c hc
    have hne : c ≠ '\n' := by
      intro heq
      rw [heq] at hc
      exact h hc
    simpa [isDot] using hne
  · rw [run_valueEnd, List.head?_cons]
  · intro z w hz heq _
    refine run_text_of_not_isPrefix ?_ _
    intro hp
    obtain ⟨d, z', rfl⟩ := List.exists_cons_of_ne_nil hz
    have hw : ']' ∈ ':' :: ' ' :: ofNat v := by
      have htail : ':' :: ' ' :: ofNat v = z' ++ w := (List.cons.inj heq).2
      rw [htail]
      exact List.mem_append_right _ (hp.subset List.mem_cons_self)
    simp only [List.mem_cons] at hw
    rcases hw with hw | hw | hw
    · exact absurd hw (by decide)
    · exact absurd hw (by decide)
    · exact absurd (isDigit_of_mem_ofNat hw) (by decide)

variable {comm : Comm} (h : '\n' ∉ decode comm.bytes)

include h

/-- The line of a process is matched with its name, whatever that contains. -/
theorem match_procOps (c p : Int64) (v : UInt64) :
    match? procOpsRe (commLine "proc_ops".toList [c, p] comm v).text
      = some [ofInt c.toInt, ofInt p.toInt, decode comm.bytes,
        ofNat v.toNat] := by
  have hline : (commLine "proc_ops".toList [c, p] comm v).text =
      "@proc_ops[".toList ++
      (ofInt c.toInt ++ (", ".toList ++ (ofInt p.toInt ++ (", ".toList ++
        (decode comm.bytes ++ ([']', ':'] ++ (' ' :: ofNat v.toNat))))))) := by
    simp [commLine, PrintedLine.text, keyText]
  rw [hline, match?, procOpsRe, run_text_append, run_keyThen, run_keyThen,
    List.head?_map,
    List.head?_map, head?_run_name h]
  rfl

/-- The line of a thread is matched as such, and not as that of a process. -/
theorem match_thrOps (c p t : Int64) (v : UInt64) :
    match? procOpsRe (commLine "thr_ops".toList [c, p, t] comm v).text = none ∧
      match? thrOpsRe (commLine "thr_ops".toList [c, p, t] comm v).text
        = some [ofInt c.toInt, ofInt p.toInt, ofInt t.toInt, decode comm.bytes,
          ofNat v.toNat] := by
  have hline : (commLine "thr_ops".toList [c, p, t] comm v).text =
      "@thr_ops[".toList ++
      (ofInt c.toInt ++
        (", ".toList ++ (ofInt p.toInt ++ (", ".toList ++ (ofInt t.toInt ++
        (", ".toList ++
          (decode comm.bytes ++
          ([']', ':'] ++ (' ' :: ofNat v.toNat))))))))) := by
    simp [commLine, PrintedLine.text, keyText]
  refine ⟨?_, ?_⟩
  · rw [hline, match?, procOpsRe, run_text_of_not_isPrefix]
    · rfl
    · intro hp
      exact absurd (List.cons_prefix_cons.mp (List.cons_prefix_cons.mp hp).2).1
        (by decide)
  · rw [hline, match?, thrOpsRe, run_text_append, run_keyThen, run_keyThen,
      run_keyThen,
      List.head?_map, List.head?_map, List.head?_map, head?_run_name h]
    rfl

/-- The line of a process adds its commands under its name. -/
theorem parseLine_procOps (procs : Procs) (c p : Int64) (v : UInt64) :
    procs.parseLine (commLine "proc_ops".toList [c, p] comm v).text
      = .ok (procs.update (c.toInt, p.toInt)
        (.addOps (decode comm.bytes) v.toNat)) := by
  have hstart :
      "@proc".toList <+: (commLine "proc_ops".toList [c, p] comm v).text :=
    ⟨_, by simp only [commLine, PrintedLine.text]; rfl⟩
  unfold Procs.parseLine
  rw [strip_commLine, if_neg (fun hno => hno.1 hstart), match_procOps h]
  show Procs.addProcOps procs _ = _
  simp only [Procs.addProcOps, pyInt_key, pyInt_word]
  rfl

/-- The line of a thread adds its commands under its name. -/
theorem parseLine_thrOps (procs : Procs) (c p t : Int64) (v : UInt64) :
    procs.parseLine (commLine "thr_ops".toList [c, p, t] comm v).text
      = .ok (procs.update (c.toInt, p.toInt)
        (.addThread t.toInt (decode comm.bytes) v.toNat)) := by
  have hstart :
      "@thr_ops".toList <+: (commLine "thr_ops".toList [c, p, t] comm v).text :=
    ⟨_, by simp only [commLine, PrintedLine.text]; rfl⟩
  obtain ⟨hno, hmatch⟩ := match_thrOps h c p t v
  unfold Procs.parseLine
  rw [strip_commLine, if_neg (fun hne => hne.2 hstart), hno, hmatch]
  show Procs.addThrOps procs _ = _
  simp only [Procs.addThrOps, pyInt_key, pyInt_word]
  rfl

end

end Telemetryd
