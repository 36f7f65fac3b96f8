import Telemetryd.Lib.GroupedSums
import Telemetryd.ProcNames

/-!
# Lines of the process maps

Each line of a process map changes the counters of one process, and the parser
makes exactly this change.  Other lines are passed over.  So what is read from
a tick is the changes of its lines, one after the other, and each counter is a
sum over the lines.
-/

namespace Telemetryd

open PyText Regex Utf8 GroupedSums

/-! ### What a line changes -/

/-- A change of the counters of a process. -/
inductive Change where
  | ops (comm : PyText) (n : Int)
  | counter (name : PyText) (v : Int)
  | bucket (name : PyText) (k v : Int)
  | thread (tid : Int) (comm : PyText) (n : Int)

/-- What a change does to the counters of a process. -/
def Change.apply : Change → RawProc → RawProc
  | ops comm n => .addOps comm n
  | counter name v => .addCounter name v
  | bucket name k v => .addBucket name k v
  | thread tid comm n => .addThread tid comm n

/-- The changes are made, each to its process. -/
def Procs.updateAll (procs : Procs) (changes : List ((Int × Int) × Change)) :
    Procs :=
  changes.foldl (fun procs ch => procs.update ch.1 ch.2.apply) procs

/-- The names of the maps with two keys. -/
def twoKeyNames : List PyText :=
  ["proc_bytes".toList, "proc_rd".toList, "proc_wr".toList,
    "proc_lat_sum".toList,
    "proc_lat_cnt".toList, "proc_seq".toList, "proc_rand".toList]

/-- The names of the maps with three keys. -/
def threeKeyNames : List PyText := ["proc_bs".toList, "proc_q".toList]

/-- A line that the parser looks at. -/
def IsProcLine (line : PyText) : Prop :=
  "@proc".toList <+: strip line ∨ "@thr_ops".toList <+: strip line

instance (line : PyText) : Decidable (IsProcLine line) :=
  inferInstanceAs (Decidable (_ ∨ _))

/-- A map name that one of the alternatives fits, and no pattern of a map with
names of processes. -/
structure FitsOnly (names : List PyText) (name : PyText) : Prop where
  proc : "@proc".toList <+: '@' :: name
  notOps : ∀ t, "@proc_ops[".toList.isPrefixOf ('@' :: (name ++ '[' :: t)) =
    false
  notThr : ∀ t, "@thr_ops[".toList.isPrefixOf ('@' :: (name ++ '[' :: t)) =
    false
  only : ∀ t, names.filter (fun x => x.isPrefixOf (name ++ (['['] ++ t))) =
    [name]

/-- No name of the counters is the start of another's line. -/
theorem fitsOnly_twoKey : ∀ name ∈ twoKeyNames, FitsOnly twoKeyNames name := by
  unfold twoKeyNames
  simp only [List.forall_mem_cons, List.not_mem_nil, false_imp_iff,
    implies_true, and_true]
  refine ⟨?_, ?_, ?_, ?_, ?_, ?_, ?_⟩
  all_goals exact ⟨by decide, fun _ => rfl, fun _ => rfl, fun _ => rfl⟩

/-- Nor is one of the tables. -/
theorem fitsOnly_threeKey :
    ∀ name ∈ threeKeyNames, FitsOnly threeKeyNames name := by
  unfold threeKeyNames
  simp only [List.forall_mem_cons, List.not_mem_nil, false_imp_iff,
    implies_true, and_true]
  refine ⟨?_, ?_⟩
  all_goals exact ⟨by decide, fun _ => rfl, fun _ => rfl, fun _ => rfl⟩

/-- The line of a table is none of a counter. -/
theorem notTwoKey_threeKey : ∀ name ∈ threeKeyNames, ∀ t,
    twoKeyNames.filter (fun x => x.isPrefixOf (name ++ (['['] ++ t))) = [] := by
  unfold threeKeyNames
  simp only [List.forall_mem_cons, List.not_mem_nil, false_imp_iff,
    implies_true, and_true]
  exact ⟨fun _ => rfl, fun _ => rfl⟩

section

variable [UnicodeDb]

/-- The pattern of the counters, in its parts. -/
theorem twoKeyRe_eq : twoKeyRe
    = text ['@'] :: group [.oneOf twoKeyNames] :: text ['['] ::
      keyThen (intGroup :: valueEnd) := rfl

/-- The pattern of the tables, in its parts. -/
theorem threeKeyRe_eq :
    threeKeyRe = text ['@'] :: group [.oneOf threeKeyNames] :: text ['['] ::
    keyThen (keyThen (intGroup :: valueEnd)) := rfl

/-- What the parser does with a line that starts with the name of a map. -/
theorem parseLine_mapLine {names : List PyText} {name : PyText}
    (hname : FitsOnly names name)
    (ks : List Int64) (v : UInt64) (procs : Procs) :
    procs.parseLine (mapLine name ks v) =
      match match? twoKeyRe (mapLine name ks v) with
      | some groups => procs.addTwoKey groups
      | none => match match? threeKeyRe (mapLine name ks v) with
        | some groups => procs.addThreeKey groups
        | none => .ok procs := by
  have hstrip : strip (mapLine name ks v) = mapLine name ks v :=
    strip_valueLine _ _
  have hline : mapLine name ks v
      = '@' :: (name ++ '[' ::
        (keyText ks ++ "]: ".toList ++ ofNat v.toNat)) := by
    simp [mapLine]
  have hstart : "@proc".toList <+: mapLine name ks v := by
    rw [hline]
    exact hname.proc.trans (List.prefix_append ('@' :: name) _)
  have hops : match? procOpsRe (mapLine name ks v) = none := by
    rw [hline, match?, procOpsRe, run_text_of_not_isPrefix]
    · rfl
    · rw [← List.isPrefixOf_iff_prefix, hname.notOps]
      exact Bool.false_ne_true
  have hthr : match? thrOpsRe (mapLine name ks v) = none := by
    rw [hline, match?, thrOpsRe, run_text_of_not_isPrefix]
    · rfl
    · rw [← List.isPrefixOf_iff_prefix, hname.notThr]
      exact Bool.false_ne_true
  unfold Procs.parseLine
  rw [hstrip, if_neg (fun hno => hno.1 hstart)]
  cases match? twoKeyRe (mapLine name ks v) with
  | some groups => simp only [hops, hthr]
  | none =>
      cases match? threeKeyRe (mapLine name ks v) with
      | some groups => simp only [hops, hthr]
      | none => simp only [hops, hthr]

/-- The last key and the value are the last two captures. -/
theorem run_lastKey (k : Int) (v : Nat) :
    run (intGroup :: valueEnd) (ofInt k ++ ([']', ':'] ++ (' ' :: ofNat v)))
      = [[ofInt k, ofNat v]] := by
  have hbracket : NotStarting isDecimal ([']', ':'] ++ (' ' :: ofNat v)) :=
    notStarting_decimal (by decide) (by decide) _
  have hblocks : Blocks Char.isDigit valueEnd := blocks_text (by decide) [':'] _
  rw [run_intGroup k hbracket hblocks, run_valueEnd]
  rfl

/-- **A line of a map with two keys.** -/
theorem parseLine_twoKey {name : PyText} (hname : name ∈ twoKeyNames)
    (c p : Int64) (v : UInt64)
    (procs : Procs) :
    procs.parseLine (mapLine name [c, p] v)
      = .ok (procs.update (c.toInt, p.toInt) (.addCounter name v.toNat)) := by
  have hline :
      mapLine name [c, p] v = ['@'] ++ (name ++ (['['] ++ (ofInt c.toInt ++
      (", ".toList ++
        (ofInt p.toInt ++ ([']', ':'] ++ (' ' :: ofNat v.toNat))))))) := by
    simp [mapLine, keyText]
  have hmatch : match? twoKeyRe (mapLine name [c, p] v)
      = some [name, ofInt c.toInt, ofInt p.toInt, ofNat v.toNat] := by
    rw [hline, match?, twoKeyRe_eq, run_text_append,
      run_oneOf ((fitsOnly_twoKey name hname).only _),
      run_text_append, run_keyThen, run_lastKey]
    rfl
  rw [parseLine_mapLine (fitsOnly_twoKey name hname), hmatch]
  change Procs.addTwoKey procs _ = _
  simp only [Procs.addTwoKey, pyInt_key, pyInt_word]
  rfl

/-- **A line of a map with three keys.** -/
theorem parseLine_threeKey {name : PyText} (hname : name ∈ threeKeyNames)
    (c p k : Int64)
    (v : UInt64) (procs : Procs) :
    procs.parseLine (mapLine name [c, p, k] v)
      = .ok (procs.update (c.toInt, p.toInt)
        (.addBucket name k.toInt v.toNat)) := by
  have hline :
      mapLine name [c, p, k] v = ['@'] ++ (name ++ (['['] ++ (ofInt c.toInt ++
      (", ".toList ++ (ofInt p.toInt ++ (", ".toList ++ (ofInt k.toInt ++
        ([']', ':'] ++ (' ' :: ofNat v.toNat))))))))) := by
    simp [mapLine, keyText]
  have hno : match? twoKeyRe (mapLine name [c, p, k] v) = none := by
    have hnone : ∀ (t : PyText) (segs : Pattern),
        run (group [.oneOf twoKeyNames] :: segs) (name ++ (['['] ++ t)) =
          [] := by
      intro t segs
      simp only [run, group, runPieces, Piece.run,
        notTwoKey_threeKey name hname t, List.map_nil,
        List.flatMap_nil]
    rw [hline, match?, twoKeyRe_eq, run_text_append]
    exact congrArg List.head? (hnone _ _)
  have hmatch : match? threeKeyRe (mapLine name [c, p, k] v)
      = some [name, ofInt c.toInt, ofInt p.toInt, ofInt k.toInt,
        ofNat v.toNat] := by
    rw [hline, match?, threeKeyRe_eq, run_text_append,
      run_oneOf ((fitsOnly_threeKey name hname).only _), run_text_append,
      run_keyThen, run_keyThen,
      run_lastKey]
    rfl
  rw [parseLine_mapLine (fitsOnly_threeKey name hname), hno, hmatch]
  change Procs.addThreeKey procs _ = _
  simp only [Procs.addThreeKey, pyInt_key, pyInt_word]
  rfl

/-- Other lines are passed over. -/
theorem parseLine_of_not_isProcLine {line : PyText} (h : ¬ IsProcLine line)
    (procs : Procs) :
    procs.parseLine line = .ok procs := by
  unfold Procs.parseLine
  exact if_pos (not_or.mp h)

end

end Telemetryd
