import Telemetryd.Collector

/-!
# What a probe does

One equation for each probe that has several cases, and the state and output of
a run in parts.  A completion first counts its latency, if its submission was
seen, and its error, if it has one; then the submission is forgotten.
-/

namespace Telemetryd

open PyText Counters

/-- The id of a command. -/
def SetupCmd.cmd (a : SetupCmd) : Key3 := (a.ctrl, a.qid, a.cid)

/-- The id of the command that is completed. -/
def CompleteRq.cmd (a : CompleteRq) : Key3 := (a.ctrl, a.qid, a.cid)

namespace Collector

variable (s : Collector) (a : CompleteRq)

/-- The process that submitted the command, 0 when it is not known. -/
def tgidOf : Int64 := (s.cmdTgid.get? a.cmd).getD 0

/-- The maps once the latency of a completion is counted. -/
def latencyMaps : Maps :=
  if word s.start a.cmd ≠ 0 then
    s.maps.countLatency a (a.nsecs - word s.start a.cmd) (s.tgidOf a)
  else s.maps

/-- The error counters after a completion. -/
def errCountAfter : Counters Key3 :=
  if a.status ≠ 0 then add s.maps.errCount (a.ctrl, a.sct.toInt64,
    a.sc.toInt64) 1
  else s.maps.errCount

/-- The line of an error is printed: fewer than fifty were, since the tick. -/
def PrintsError : Prop := a.status ≠ 0 ∧ word s.errBudget a.ctrl < 50

instance : Decidable (s.PrintsError a) := inferInstanceAs (Decidable (_ ∧ _))

/-- The lines counted since the tick, after a completion. -/
def errBudgetAfter : Counters Int64 :=
  if s.PrintsError a
    then s.errBudget.insert a.ctrl (word s.errBudget a.ctrl + 1)
    else s.errBudget

/-- The collector after a completion, before the submission is forgotten. -/
def counted : Collector :=
  { s with
    maps := { s.latencyMaps a with errCount := s.errCountAfter a }
    errBudget := s.errBudgetAfter a }

theorem errCount_latencyMaps :
    (s.latencyMaps a).errCount = s.maps.errCount := by
  unfold latencyMaps
  split <;> rfl

theorem noteError_eq (s : Collector) (a : CompleteRq) : s.noteError a
    = ({ s with
          maps := { s.maps with errCount := s.errCountAfter a }
          errBudget := s.errBudgetAfter a },
        if s.PrintsError a then [.line (.plain (s.errorLine a))] else []) := by
  unfold noteError errCountAfter errBudgetAfter PrintsError
  by_cases hstatus : a.status = 0
  · simp [hstatus]
  · by_cases hbudget : word s.errBudget a.ctrl < 50
    · simp [hstatus, hbudget]
    · simp [hstatus, hbudget]

/-- **A completion.** -/
theorem completeRq_eq : s.completeRq a = ((s.counted a).forget a,
    if s.PrintsError a then [.line (.plain (s.errorLine a))] else []) := by
  have hcomplete : s.completeRq a
      = ((({ s with maps := s.latencyMaps a } : Collector).noteError a).1.forget
        a,
        (({ s with maps := s.latencyMaps a } : Collector).noteError a).2) := by
    unfold completeRq latencyMaps
    by_cases h : word s.start a.cmd ≠ 0
    · have h' : word s.start (a.ctrl, a.qid, a.cid) ≠ 0 := h
      simp only [if_pos h, if_pos h']
      rfl
    · have h' : ¬ word s.start (a.ctrl, a.qid, a.cid) ≠ 0 := h
      simp only [if_neg h, if_neg h']
  have herr : ({ s with maps := s.latencyMaps a } : Collector).errCountAfter a
      = s.errCountAfter a := by
    unfold errCountAfter
    rw [errCount_latencyMaps]
  rw [hcomplete, noteError_eq, herr]
  rfl

end Collector

/-! ### Runs in parts -/

section

variable (o : PrintOrder)

/-- The collector after some probes. -/
def Collector.run (s : Collector) (probes : List Probe) : Collector :=
  probes.foldl (fun s p => (s.step o p).1) s

theorem Collector.output_append (s : Collector) (before after : List Probe) :
    s.output o (before ++ after) =
      s.output o before ++ (s.run o before).output o after := by
  induction before generalizing s with
  | nil => rfl
  | cons p before ih =>
      have hrest := ih (s.step o p).1
      simp only [List.cons_append, Collector.output, Collector.run,
        List.foldl_cons,
        List.append_assoc] at hrest ⊢
      rw [hrest]

end

end Telemetryd
