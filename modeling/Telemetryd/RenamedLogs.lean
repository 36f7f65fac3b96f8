import Telemetryd.RenamedRuns
import Telemetryd.TickConservation

/-!
# Logs of runs that differ in a name

The logs of two such runs are read at the same point: after the same number of
entries and as many bytes of the next one.  Lines that no name breaks are one
entry each, so either neither log has a complete tick, or the last complete
tick of both is the one that the same probes lead up to.
-/

namespace Telemetryd

open PyText Utf8

/-! ### Where a log ends -/

section

variable (o : PrintOrder)

/-- The last complete tick is the one behind the probes `before`. -/
def EndsBehind (s : Collector) (before : List Probe) (b : Bytes) : Prop :=
  ∃ rest, b = logBytes (s.output o before) ++
      (tickBytes o (s.run o before).maps ++ rest) ∧
    ¬ tickMarker <:+: decode rest

/-- The tick that is printed first. -/
theorem endsBehind_nil (s : Collector) {rest : Bytes}
    (h : ¬ tickMarker <:+: decode rest) :
    EndsBehind o s [] (tickBytes o s.maps ++ rest) := by
  have hnothing : logBytes (s.output o []) = [] := rfl
  have hrun : s.run o [] = s := rfl
  exact ⟨rest, by rw [hnothing, hrun, List.nil_append], h⟩

theorem EndsBehind.cons {s : Collector} {p : Probe} {before : List Probe}
    {b : Bytes}
    (h : EndsBehind o (s.step o p).1 before b) :
    EndsBehind o s (p :: before) (logBytes (s.step o p).2 ++ b) := by
  obtain ⟨rest, rfl, hrest⟩ := h
  have hout : logBytes (s.output o (p :: before))
      = logBytes (s.step o p).2 ++ logBytes ((s.step o p).1.output o before) :=
    logBytes_append _ _
  have hrun : s.run o (p :: before) = (s.step o p).1.run o before := rfl
  exact ⟨rest, by rw [hout, hrun, List.append_assoc], hrest⟩

/-- Within the lines of an event there is no marker. -/
theorem no_marker_cut_step (s : Collector) {p : Probe} (hp : p ≠ .interval)
    (k j : Nat) :
    ¬ tickMarker <:+: decode (cutLog (s.step o p).2 k j) := by
  rw [List.prefix_iff_eq_take.mp (cutLog_isPrefix _ k j)]
  exact no_marker_take_step o s hp _

/-- In front of an output without a marker the lines of an event add none. -/
theorem no_marker_step_append (s : Collector) {p : Probe} (hp : p ≠ .interval)
    {b : Bytes}
    (hb : ¬ tickMarker <:+: decode b) :
    ¬ tickMarker <:+: decode (logBytes (s.step o p).2 ++ b) := by
  have hstep := between_step o s hp
  rw [decode_logBytes (clean_step o s p)]
  exact no_marker_append hstep.endsLine hstep.no_marker hb

/-- Behind a tick, and in front of an output without a marker. -/
theorem endsBehind_interval (s : Collector) {b : Bytes}
    (hb : ¬ tickMarker <:+: decode b) :
    EndsBehind o s [] (logBytes (s.step o .interval).2 ++ b) := by
  rw [logBytes_interval, List.append_assoc]
  exact endsBehind_nil o s (no_marker_newline hb)

/-- What is printed at a tick: its lines, and the marker. -/
theorem length_interval (s : Collector) :
    (s.step o .interval).2.length = (tickLines o s.maps).length + 1 := by
  show ((tickLines o s.maps).map Entry.line ++ [Entry.mark]).length = _
  rw [List.length_append, List.length_map, List.length_singleton]

/-- A tick that is read to the end of its marker. -/
theorem endsBehind_cut (s : Collector) {j : Nat} (hj : 10 ≤ j) :
    EndsBehind o s []
      (cutLog (s.step o .interval).2 (tickLines o s.maps).length j) := by
  have hstep : (s.step o .interval).2 = (tickLines o s.maps).map Entry.line ++
    [.mark] := rfl
  have hbytes : Entry.mark.bytes = ascii tickMarker ++ [newline] := rfl
  have hmark : (ascii tickMarker ++ [newline]).take j =
      ascii tickMarker ++ [newline].take (j - 10) := by
    have hten : (ascii tickMarker).length = 10 := by decide
    rw [List.take_append, List.take_of_length_le (by omega), hten]
  have hcut : cutLog (s.step o .interval).2 (tickLines o s.maps).length j
      = tickBytes o s.maps ++ [newline].take (j - 10) := by
    have hlines : ((tickLines o s.maps).map Entry.line).length =
        (tickLines o s.maps).length :=
      List.length_map _
    rw [hstep, cutLog_append_of_le (Nat.le_of_eq hlines), hlines, Nat.sub_self,
      cutLog_zero,
      tickBytes, List.append_assoc, ← hmark, hbytes]
  rw [hcut]
  refine endsBehind_nil o s fun hi => ?_
  have hlength := hi.length_le.trans (length_decode_le _)
  have hten : tickMarker.length = 10 := by decide
  rw [List.length_take, hten, List.length_singleton] at hlength
  omega

/-- A tick that is read to a point before the end of its marker. -/
theorem no_marker_cut_interval {s : Collector} (hs : s.maps.NamesHarmless)
    {k j : Nat}
    (hk : k < (s.step o .interval).2.length)
    (hcut : ¬ (k = (tickLines o s.maps).length ∧ 10 ≤ j)) :
    ¬ tickMarker <:+: decode (cutLog (s.step o .interval).2 k j) := by
  have hstep : (s.step o .interval).2 = (tickLines o s.maps).map Entry.line ++
    [.mark] := rfl
  have hlines : ((tickLines o s.maps).map Entry.line).length =
      (tickLines o s.maps).length :=
    List.length_map _
  rw [length_interval] at hk
  by_cases hlt : k < (tickLines o s.maps).length
  · -- The cut is in the lines.
    rw [hstep, cutLog_append_of_lt (by rw [hlines]; exact hlt),
      List.prefix_iff_eq_take.mp (cutLog_isPrefix _ k j)]
    exact no_marker_take_lines (clean_tickLines o s.maps)
      (harmless_tickLines o hs) _
  · -- The cut is in the marker.
    have hmark := Nat.eq_of_lt_succ_of_not_lt hk hlt
    have hj : j < 10 := Nat.lt_of_not_le fun hten => hcut ⟨hmark, hten⟩
    have hten : (ascii tickMarker).length = 10 := by decide
    have htorn : cutLog (s.step o .interval).2 k j
        = (tickBytes o s.maps).take
          ((logBytes ((tickLines o s.maps).map Entry.line)).length + j) := by
      have hbytes : Entry.mark.bytes = ascii tickMarker ++ [newline] := rfl
      rw [hmark, hstep, cutLog_append_of_le (Nat.le_of_eq hlines), hlines,
        Nat.sub_self,
        cutLog_zero, hbytes, tickBytes, List.take_length_add_append,
        List.take_append_of_le_length (by omega)]
    rw [htorn]
    refine no_marker_take_tick o hs ?_
    rw [tickBytes, List.length_append, hten]
    omega

end

/-! ### Two logs -/

/-- Neither log has a complete tick, or the same probes lead up to the last
complete tick of both. -/
inductive SameTick (o : PrintOrder) (p : Int64) (a b : Comm) (s s' : Collector)
    (probes : List Probe) (log log' : Bytes) : Prop
  | none (h : ¬ tickMarker <:+: decode log) (h' : ¬ tickMarker <:+: decode log')
  | tick {before after : List Probe} (hprobes : probes =
      before ++ .interval :: after)
      (h : EndsBehind o s (before.map (Probe.rename p a)) log)
      (h' : EndsBehind o s' (before.map (Probe.rename p b)) log')

section

variable (o : PrintOrder) {p : Int64} {a b : Comm}

theorem rename_ne_interval {x : Comm} {probe : Probe} (h : probe ≠ .interval) :
    probe.rename p x ≠ .interval := by
  cases probe with
  | interval => exact absurd rfl h
  | setupCmd q => simp [Probe.rename]
  | completeRq q => simp [Probe.rename]
  | nvmeTimeout q => simp [Probe.rename]

/-- The name of the process that submits is no part of the format, unless it is
the process `p`. -/
def Probe.HarmlessBut (p : Int64) : Probe → Prop
  | .setupCmd q => q.pid ≠ p → q.comm.Harmless
  | _ => True

/-- With its new name the process that submits is no part of the format. -/
theorem harmless_rename {x : Comm} (hx : x.Harmless) {probe : Probe}
    (h : probe.HarmlessBut p) :
    (probe.rename p x).Harmless := by
  cases probe with
  | setupCmd q =>
      by_cases hq : q.pid = p
      · simpa [Probe.rename, Probe.Harmless, hq] using hx
      · simpa [Probe.rename, Probe.Harmless, hq] using h hq
  | completeRq q => trivial
  | nvmeTimeout q => trivial
  | interval => trivial

/-- The collectors of the two runs after the same probes. -/
theorem sameBut_run {s s' : Collector} (h : SameBut p a b s s')
    (probes : List Probe) :
    SameBut p a b (s.run o (probes.map (Probe.rename p a)))
      (s'.run o (probes.map (Probe.rename p b))) := by
  induction probes generalizing s s' with
  | nil => exact h
  | cons probe probes ih => exact ih (sameBut_step o o p a b h probe).1

variable (ha : a.Harmless) (hb : b.Harmless)

include ha hb

/-- **Two outputs, read at the same point.** -/
theorem sameTick_output {s s' : Collector} (h : SameBut p a b s s')
    (hs : s.maps.NamesHarmless)
    (hs' : s'.maps.NamesHarmless) {probes : List Probe}
    (hprobes : ∀ q ∈ probes, q.HarmlessBut p)
    (k j : Nat) :
    SameTick o p a b s s' probes
      (cutLog (s.output o (probes.map (Probe.rename p a))) k j)
      (cutLog (s'.output o (probes.map (Probe.rename p b))) k j) := by
  induction probes generalizing s s' k with
  | nil =>
      have hempty : cutLog [] k j = [] := by
        unfold cutLog
        rw [List.take_nil, List.drop_nil]
        rfl
      have hnone : ¬ tickMarker <:+: decode (cutLog [] k j) := by
        rw [hempty]
        decide
      exact .none hnone hnone
  | cons probe probes ih =>
      obtain ⟨hprobe, hrest⟩ := List.forall_mem_cons.mp hprobes
      obtain ⟨hstep, hout⟩ := sameBut_step o o p a b h probe
      have hlength := hout.length_eq
      have hcons : ∀ (t : Collector) (x : Comm),
          t.output o ((probe :: probes).map (Probe.rename p x))
          = (t.step o (probe.rename p x)).2 ++
            (t.step o (probe.rename p x)).1.output o
              (probes.map (Probe.rename p x)) :=
        fun _ _ => rfl
      rw [hcons, hcons]
      by_cases hk : (s.step o (probe.rename p a)).2.length ≤ k
      · -- All that this probe printed is read.
        rw [cutLog_append_of_le hk,
          cutLog_append_of_le (hlength ▸ hk), ← hlength]
        have hnext := ih hstep
          (Collector.namesHarmless_step o hs (harmless_rename ha hprobe))
          (Collector.namesHarmless_step o hs' (harmless_rename hb hprobe)) hrest
          (k - (s.step o (probe.rename p a)).2.length)
        cases hnext with
        | none hnone hnone' =>
            by_cases hp : probe = .interval
            · subst hp
              exact .tick (List.nil_append _).symm
                (endsBehind_interval o s hnone)
                (endsBehind_interval o s' hnone')
            · exact .none (no_marker_step_append o s
                (rename_ne_interval hp) hnone)
                (no_marker_step_append o s' (rename_ne_interval hp) hnone')
        | @tick before after hsplit hlast hlast' =>
            have hprobes :
                probe :: probes = (probe :: before) ++ .interval :: after := by
              rw [hsplit, List.cons_append]
            exact .tick hprobes (hlast.cons o) (hlast'.cons o)
      · -- The cut is in what this probe printed.
        have hk := Nat.lt_of_not_le hk
        have hk' := hlength ▸ hk
        rw [cutLog_append_of_lt hk, cutLog_append_of_lt hk']
        by_cases hp : probe = .interval
        · subst hp
          have hrename : ∀ x, Probe.interval.rename p x = .interval :=
            fun _ => rfl
          rw [hrename] at hk hk' ⊢
          have hsame :
              (tickLines o s.maps).length = (tickLines o s'.maps).length := by
            rw [hrename, length_interval, hrename, length_interval] at hlength
            exact Nat.succ.inj hlength
          by_cases hmark : k = (tickLines o s.maps).length ∧ 10 ≤ j
          · have hhere := endsBehind_cut o s hmark.2
            have hhere' := endsBehind_cut o s' hmark.2
            rw [← hmark.1] at hhere
            rw [← hsame, ← hmark.1] at hhere'
            exact .tick (List.nil_append _).symm hhere hhere'
          · have hmark' : ¬ (k = (tickLines o s'.maps).length ∧ 10 ≤ j) := by
              rw [← hsame]
              exact hmark
            exact .none (no_marker_cut_interval o hs hk hmark)
              (no_marker_cut_interval o hs' hk' hmark')
        · exact .none (no_marker_cut_step o s (rename_ne_interval hp) k j)
            (no_marker_cut_step o s' (rename_ne_interval hp) k j)

end

/-! ### Two runs -/

/-- A run whose log is read after `k` entries and `j` bytes of the next. -/
def cutRun (o : PrintOrder) (probes : List Probe) (k j : Nat) : KilledRun :=
  ⟨probes, (cutLog (runOutput o probes) k j).length⟩

section

variable (o : PrintOrder)

theorem bytes_cutRun (probes : List Probe) (k j : Nat) :
    (cutRun o probes k j).bytes o = cutLog (runOutput o probes) k j :=
  (List.prefix_iff_eq_take.mp (cutLog_isPrefix _ k j)).symm

/-- What a run writes: its first line, and the output of its probes. -/
theorem cutLog_runOutput (probes : List Probe) (k j : Nat) :
    cutLog (runOutput o probes) (k + 1) j =
      (Entry.line (.plain attachedLine)).bytes ++
      cutLog (Collector.output o {} probes) k j := by
  have hfirst : logBytes [Entry.line (.plain attachedLine)] =
      (Entry.line (.plain attachedLine)).bytes :=
    List.append_nil _
  have hlength : [Entry.line (.plain attachedLine)].length ≤ k + 1 :=
    Nat.le_add_left 1 k
  have hcut := cutLog_append_of_le hlength (Collector.output o {} probes) j
  rw [hfirst] at hcut
  exact hcut

/-- The last tick of a run, from that of its output. -/
theorem EndsBehind.lastTick {probes before after : List Probe}
    (hprobes : probes = before ++ .interval :: after) {k j : Nat}
    (h : EndsBehind o {} before (cutLog (Collector.output o {} probes) k j)) :
    ∃ rest, (cutRun o probes (k + 1) j).LastTick o before rest := by
  obtain ⟨rest, hlog, hrest⟩ := h
  have hout : logBytes (runOutput o before) =
      (Entry.line (.plain attachedLine)).bytes ++
      logBytes (Collector.output o {} before) := List.flatMap_cons
  refine ⟨rest, ⟨after, hprobes⟩, ?_, hrest⟩
  rw [bytes_cutRun, cutLog_runOutput, hlog, hout, List.append_assoc]

/-- Without a tick in its output a run has written none. -/
theorem no_marker_cutRun {probes : List Probe} {k j : Nat}
    (h : ¬ tickMarker <:+: decode (cutLog (Collector.output o {} probes) k j)) :
    ¬ tickMarker <:+: decode (cutLog (runOutput o probes) (k + 1) j) := by
  have hstart : AtLineStart (Entry.line (.plain attachedLine)).bytes :=
    Or.inr ⟨_, rfl⟩
  have hfirst : decode (Entry.line (.plain attachedLine)).bytes =
    attachedLine ++ ['\n'] := by decide
  rw [cutLog_runOutput, decode_atLineStart hstart, hfirst]
  exact no_marker_append between_attached.endsLine between_attached.no_marker h

/-- In its first line a run has written no tick. -/
theorem no_marker_firstLine (probes : List Probe) (j : Nat) :
    ¬ tickMarker <:+: decode (cutLog (runOutput o probes) 0 j) := by
  intro hi
  have hbytes := (infix_decode_iff (by decide) (by decide)).mp hi
  have hcut : cutLog (runOutput o probes) 0 j
      = (Entry.line (.plain attachedLine)).bytes.take j := cutLog_zero _ _ j
  rw [hcut] at hbytes
  exact absurd (hbytes.trans (List.take_prefix _ _).isInfix) (by decide)

/-- **Two runs, read at the same point.**  Neither has written a complete tick,
or the same probes lead up to the last one. -/
theorem sameTick_runs {p : Int64} {a b : Comm} (ha : a.Harmless)
    (hb : b.Harmless)
    {probes : List Probe} (hprobes : ∀ q ∈ probes, q.HarmlessBut p)
    (k j : Nat) :
    (¬ tickMarker <:+:
      decode ((cutRun o (probes.map (Probe.rename p a)) k j).bytes o) ∧
        ¬ tickMarker <:+:
          decode ((cutRun o (probes.map (Probe.rename p b)) k j).bytes o)) ∨
      ∃ before : List Probe,
          (∃ rest, (cutRun o (probes.map (Probe.rename p a)) k j).LastTick o
          (before.map (Probe.rename p a)) rest) ∧
        ∃ rest, (cutRun o (probes.map (Probe.rename p b)) k j).LastTick o
          (before.map (Probe.rename p b)) rest := by
  rw [bytes_cutRun, bytes_cutRun]
  cases k with
  | zero => exact Or.inl ⟨no_marker_firstLine o _ j, no_marker_firstLine o _ j⟩
  | succ k =>
      have hsame := sameTick_output o ha hb (sameBut_initial p a b)
        KilledRun.namesHarmless_start KilledRun.namesHarmless_start hprobes k j
      cases hsame with
      | none h h' => exact Or.inl ⟨no_marker_cutRun o h, no_marker_cutRun o h'⟩
      | @tick before after hsplit h h' =>
          have hboth : ∀ x, probes.map (Probe.rename p x) =
              before.map (Probe.rename p x) ++
              .interval :: after.map (Probe.rename p x) := by
            intro x
            rw [hsplit, List.map_append, List.map_cons, Probe.rename]
          exact Or.inr ⟨before, h.lastTick o (hboth a), h'.lastTick o (hboth b)⟩

end

end Telemetryd
