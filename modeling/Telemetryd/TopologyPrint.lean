import Telemetryd.Lib.DrawnTree
import Telemetryd.Topology

/-!
# The topology on the command line

`telemetryd topology` prints the tree: a line for the root and one for what is
below its name, and then a line for each node, behind connectors that show where
it is attached.  With `--details` the properties of a node follow its line.

The text says all that it is meant to show.  Two trees are printed alike exactly
if they have the same shape and nodes of the same kinds with the same names.
-/

namespace Telemetryd

open RoseTree PyText

/-! ### The lines -/

/-- `_TOPO_MARKS` -/
def topoMark : TopoKind → Char
  | .system => '■'
  | .hostBridge => '▣'
  | .pciBridge => '◆'
  | .pciEndpoint => '●'
  | .nvmeCtrl => '◎'
  | .nvmeSubsys => '◈'
  | .nvmeNamespace => '▪'
  | .queueGroup => '▤'
  | .queue => '·'

/-- The connectors and columns of the tree. -/
def topoDrawing : Drawing Char where
  turn isLast := if isLast then "└─ ".toList else "├─ ".toList
  column isLast := if isLast then "   ".toList else "│  ".toList
  note := "    ".toList
  length_eq := by decide
  turn_injective := by decide
  apart := by decide
  column_prefix_note := by decide

/-- The name of a node and what is printed behind it. -/
def topoName (info : TopologyInfo) : PyText :=
  info.label ++ if info.sublabel = [] then []
    else "  — ".toList ++ info.sublabel

/-- The mark and the name of a node. -/
def topoHead (info : TopologyInfo) : PyText :=
  topoMark info.kind :: ' ' :: topoName info

/-- The details of a node, where they are asked for. -/
def topoDetails (showDetails : Bool) (info : TopologyInfo) : List PyText :=
  if showDetails then info.details.map fun d => d.key ++ ": ".toList ++ d.value
    else []

/-- `_print_topo_node` -/
def printTopoNode (node : TopologyNode) (above : PyText)
    (isLast showDetails : Bool) : List PyText :=
  topoDrawing.lines topoHead (topoDetails showDetails) above isLast node

/-- The loop over the children. -/
def printTopoNodes (nodes : List TopologyNode) (above : PyText)
    (showDetails : Bool) : List PyText :=
  topoDrawing.linesAll topoHead (topoDetails showDetails) above nodes

/-- The lines of a root. -/
def printTopoRoot (info : TopologyInfo) : List PyText :=
  (topoMark info.kind :: ' ' :: info.label) ::
    if info.sublabel = [] then [] else [' ' :: ' ' :: info.sublabel]

/-- The line of an error that is not empty. -/
def printTopoError (error : Option PyText) : List PyText :=
  match error with
  | none => []
  | some e => if e = [] then [] else ["[경고] 일부 장치를 못 읽음: ".toList ++ e]

/-- What `topology` passes to `click.echo`. -/
def printTopology (showDetails : Bool) (topo : Topology) : List PyText :=
  match topo.root with
  | .node info children =>
      printTopoRoot info ++ printTopoNodes children [] showDetails ++
        printTopoError topo.error

/-- What is written by `click.echo`, called for each of the lines. -/
def echoed (lines : List PyText) : PyText := lines.flatMap (· ++ ['\n'])

/-! ### Lines in a text -/

/-- A line that is no warning. -/
def TreeLine (l : PyText) : Prop := '\n' ∉ l ∧ l.head? ≠ some '['

/-- What is printed ends each line. -/
theorem echoed_cons (l : PyText) (ls : List PyText) :
    echoed (l :: ls) = l ++ '\n' :: echoed ls := by
  rw [echoed, List.flatMap_cons, List.append_assoc]
  rfl

/-- A line of a tree does not begin with a bracket. -/
theorem head?_echoed {l : PyText} (h : l.head? ≠ some '[') (rest : PyText) :
    (l ++ '\n' :: rest).head? ≠ some '[' := by
  cases l with
  | nil => exact fun hc => absurd (Option.some.inj hc) (by decide)
  | cons c l => exact h

/-- The lines before a warning are told from it and from each other. -/
theorem echoed_inj {ls ls' : List PyText} {x x' : PyText}
    (hls : ∀ l ∈ ls, TreeLine l)
    (hls' : ∀ l ∈ ls', TreeLine l) (hx : x = [] ∨ x.head? = some '[')
    (hx' : x' = [] ∨ x'.head? = some '[')
    (h : echoed ls ++ x = echoed ls' ++ x') :
    ls = ls' ∧ x = x' := by
  have hmeet : ∀ {l : PyText} {rest x : PyText}, l.head? ≠ some '[' →
      (x = [] ∨ x.head? = some '[') → x ≠ l ++ '\n' :: rest := by
    rintro l rest x hl (rfl | hx) heq
    · exact absurd heq.symm (by simp)
    · exact head?_echoed hl rest (heq ▸ hx)
  induction ls generalizing ls' with
  | nil =>
      cases ls' with
      | nil => exact ⟨rfl, h⟩
      | cons l' ls' =>
          rw [echoed_cons, List.append_assoc] at h
          exact absurd h (hmeet (List.forall_mem_cons.mp hls').1.2 hx)
  | cons l ls ih =>
      obtain ⟨hl, hls⟩ := List.forall_mem_cons.mp hls
      cases ls' with
      | nil =>
          rw [echoed_cons, List.append_assoc] at h
          exact absurd h.symm (hmeet hl.2 hx')
      | cons l' ls' =>
          obtain ⟨hl', hrest'⟩ := List.forall_mem_cons.mp hls'
          rw [echoed_cons, echoed_cons, List.append_assoc,
            List.append_assoc] at h
          obtain ⟨hline, hrest⟩ := append_first_inj hl.1 hl'.1 h
          obtain ⟨htail, htext⟩ := ih hls hrest' hrest
          rw [hline, htail]
          exact ⟨rfl, htext⟩

/-! ### What is shown -/

/-- What is printed of a node below the root. -/
structure ShownNode where
  kind : TopoKind
  name : PyText
  details : List PyText

/-- What is printed of a topology. -/
structure ShownTopology where
  kind : TopoKind
  label : PyText
  sublabel : PyText
  below : List (RoseTree ShownNode)
  error : Option PyText

/-- What is shown of a node. -/
def shownNode (showDetails : Bool) (info : TopologyInfo) : ShownNode :=
  ⟨info.kind, topoName info, topoDetails showDetails info⟩

/-- What is shown of a topology. -/
def shownTopology (showDetails : Bool) (topo : Topology) : ShownTopology :=
  match topo.root with
  | .node info children =>
      ⟨info.kind, info.label, info.sublabel,
        children.map (RoseTree.map (shownNode showDetails)),
        topo.error.filter (· ≠ [])⟩

/-- Nothing that is printed of a node breaks its line. -/
def OneLine (info : TopologyInfo) : Prop :=
  '\n' ∉ info.label ∧ '\n' ∉ info.sublabel ∧ ∀ d ∈ info.details, '\n' ∉ d.key ∧
    '\n' ∉ d.value

instance (info : TopologyInfo) : Decidable (OneLine info) := by
  unfold OneLine
  infer_instance

/-- Different kinds have different marks. -/
theorem topoMark_injective : Function.Injective topoMark := by
  intro k k' h
  cases k <;> cases k' <;> first | rfl | exact absurd h (by decide)

/-- The marks are none of the signs that the drawing uses. -/
theorem topoMark_ne (k : TopoKind) :
    topoMark k ≠ '\n' ∧ topoMark k ≠ '[' ∧ topoMark k ≠ ' ' := by
  cases k <;> decide

/-- The head of a node and its details, from what is shown of it. -/
def ShownNode.entry (n : ShownNode) : PyText × List PyText :=
  (topoMark n.kind :: ' ' :: n.name, n.details)

/-- What is shown can be told from the entry. -/
theorem ShownNode.entry_injective : Function.Injective ShownNode.entry := by
  rintro ⟨k, n, l⟩ ⟨k', n', l'⟩ h
  obtain ⟨hhead, hdetails⟩ := Prod.ext_iff.mp h
  simp only [entry, List.cons.injEq, true_and] at hhead hdetails
  rw [topoMark_injective hhead.1, hhead.2, hdetails]

/-- **The lines of the children** say their kinds, names and details. -/
theorem printTopoNodes_eq_iff {showDetails : Bool} {above : PyText}
    {cs cs' : List TopologyNode} :
    printTopoNodes cs above showDetails = printTopoNodes cs' above showDetails ↔
      cs.map (RoseTree.map (shownNode showDetails)) =
        cs'.map (RoseTree.map (shownNode showDetails)) := by
  have hentry : ∀ t : TopologyNode,
      t.map (Drawing.entry topoHead (topoDetails showDetails)) =
      (t.map (shownNode showDetails)).map ShownNode.entry :=
    fun t => (RoseTree.map_map ShownNode.entry (shownNode showDetails) t).symm
  have hlist : ∀ ds : List TopologyNode,
      ds.map (RoseTree.map (Drawing.entry topoHead (topoDetails showDetails))) =
        (ds.map (RoseTree.map (shownNode showDetails))).map
          (RoseTree.map ShownNode.entry) := by
    intro ds
    rw [List.map_map]
    exact List.map_congr_left fun t _ => hentry t
  rw [printTopoNodes, printTopoNodes, Drawing.linesAll_eq_iff, hlist, hlist]
  exact (List.map_injective_iff.mpr
    (RoseTree.map_injective ShownNode.entry_injective)).eq_iff

/-! ### The lines of a topology -/

/-- A name of one line has no line feed. -/
theorem notMem_topoName {info : TopologyInfo} (h : OneLine info) :
    '\n' ∉ topoName info := by
  unfold topoName
  split <;> simp [h.1, h.2.1]

/-- The lines of the children are in one line each, behind a connector or a
column. -/
theorem treeLine_printTopoNodes {showDetails : Bool} {cs : List TopologyNode}
    (h : ∀ c ∈ cs, ∀ a ∈ c.labels, OneLine a) :
    ∀ l ∈ printTopoNodes cs [] showDetails, TreeLine l := by
  intro l hl
  obtain ⟨c, hc, b, hl⟩ := Drawing.of_mem_linesAll hl
  refine ⟨fun hmem => ?_, ?_⟩
  · refine Drawing.forall_mem_lines (P := (· ≠ '\n')) (by decide) (by decide)
      (by decide) ?_
      (List.forall_mem_nil _) l hl _ hmem rfl
    intro a ha
    have hone := h c hc a ha
    constructor
    · rintro x hx rfl
      rcases List.mem_cons.mp hx with hx | hx
      · exact (topoMark_ne a.kind).1 hx.symm
      · exact notMem_topoName hone
          ((List.mem_cons.mp hx).resolve_left (by decide))
    · rintro t ht x hx rfl
      unfold topoDetails at ht
      split at ht
      · obtain ⟨d, hd, rfl⟩ := List.mem_map.mp ht
        have := hone.2.2 d hd
        simp [this.1, this.2] at hx
      · cases ht
  · have hstart : ∀ (p : PyText) (x : Char) (t : PyText), p = x :: t → x ≠ '[' →
        p <+: l →
        l.head? ≠ some '[' := by
      rintro p x t rfl hx ⟨rest, rfl⟩ heq
      exact hx (Option.some.inj heq)
    obtain ⟨x, rest, hlines, hrest⟩ :
        ∃ x rest, topoDrawing.lines topoHead (topoDetails showDetails) [] b c =
          ([] ++ topoDrawing.turn b ++ x) :: rest ∧
            ∀ l ∈ rest, [] ++ topoDrawing.column b <+: l :=
      Drawing.lines_eq_cons [] b c
    rw [hlines] at hl
    rcases List.mem_cons.mp hl with rfl | hbelow
    · cases b
      · exact hstart _ '├' _ rfl (by decide) (List.prefix_append _ _)
      · exact hstart _ '└' _ rfl (by decide) (List.prefix_append _ _)
    · cases b
      · exact hstart _ '│' _ rfl (by decide) (hrest l hbelow)
      · exact hstart _ ' ' _ rfl (by decide) (hrest l hbelow)

/-- The lines of a root are lines of a tree. -/
theorem treeLine_printTopoRoot {info : TopologyInfo} (h : OneLine info) :
    ∀ l ∈ printTopoRoot info, TreeLine l := by
  obtain ⟨hnewline, hwarning, -⟩ := topoMark_ne info.kind
  intro l hl
  rcases List.mem_cons.mp hl with rfl | hl
  · refine ⟨fun hmem => ?_, fun heq => hwarning (Option.some.inj heq)⟩
    rcases List.mem_cons.mp hmem with hmem | hmem
    · exact hnewline hmem.symm
    · exact h.1 ((List.mem_cons.mp hmem).resolve_left (by decide))
  · split at hl
    · cases hl
    · obtain rfl := List.mem_singleton.mp hl
      refine ⟨fun hmem => h.2.1 ?_, fun heq =>
        absurd (Option.some.inj heq) (by decide)⟩
      exact (List.mem_cons.mp
        ((List.mem_cons.mp hmem).resolve_left (by decide))).resolve_left
        (by decide)

/-- The line below the name of a root is told from the lines of its children. -/
theorem printTopoRoot_inj {info info' : TopologyInfo}
    {cs cs' : List TopologyNode}
    {showDetails : Bool}
    (h : printTopoRoot info ++ printTopoNodes cs [] showDetails =
      printTopoRoot info' ++ printTopoNodes cs' [] showDetails) :
    printTopoRoot info = printTopoRoot info' ∧
      printTopoNodes cs [] showDetails = printTopoNodes cs' [] showDetails := by
  have hroot : ∀ info : TopologyInfo, ∀ l ∈ (printTopoRoot info).tail,
      l.head? = some ' ' := by
    intro info l hl
    rw [printTopoRoot, List.tail_cons] at hl
    split at hl
    · cases hl
    · rw [List.mem_singleton.mp hl]
      rfl
  have hbelow : ∀ cs : List TopologyNode,
      ∀ l ∈ (printTopoNodes cs [] showDetails).head?, ¬ l.head? = some ' ' := by
    intro cs l hl
    cases cs with
    | nil => cases hl
    | cons c cs =>
        obtain ⟨a, ds⟩ := c
        obtain rfl := Option.some.inj hl
        cases cs <;> exact fun heq => absurd (Option.some.inj heq) (by decide)
  have hcons : ∀ info : TopologyInfo, printTopoRoot info =
      (topoMark info.kind :: ' ' :: info.label) :: (printTopoRoot info).tail :=
        fun _ => rfl
  rw [hcons info, hcons info', List.cons_append, List.cons_append,
    List.cons.injEq] at h
  obtain ⟨hrest, hnodes⟩ :=
    Drawing.append_inj_of_forall (hroot info) (hroot info') (hbelow cs)
      (hbelow cs') h.2
  rw [hcons info, hcons info', h.1, hrest]
  exact ⟨rfl, hnodes⟩

/-- Equal lines are of roots that show the same. -/
theorem printTopoRoot_eq_iff {info info' : TopologyInfo} :
    printTopoRoot info = printTopoRoot info' ↔
    info.kind = info'.kind ∧ info.label = info'.label ∧
      info.sublabel = info'.sublabel := by
  constructor
  · intro h
    simp only [printTopoRoot, List.cons.injEq, true_and] at h
    obtain ⟨⟨hkind, hlabel⟩, hsub⟩ := h
    refine ⟨topoMark_injective hkind, hlabel, ?_⟩
    by_cases hnil : info.sublabel = [] <;> by_cases hnil' : info'.sublabel = []
    · rw [hnil, hnil']
    · rw [if_pos hnil, if_neg hnil'] at hsub
      cases hsub
    · rw [if_neg hnil, if_pos hnil'] at hsub
      cases hsub
    · rw [if_neg hnil, if_neg hnil'] at hsub
      simpa using hsub
  · rintro ⟨hkind, hlabel, hsub⟩
    rw [printTopoRoot, printTopoRoot, hkind, hlabel, hsub]

/-- The warning, if there is one. -/
theorem printTopoError_eq (error : Option PyText) : printTopoError error =
    (error.filter (· ≠ [])).toList.map ("[경고] 일부 장치를 못 읽음: ".toList ++ ·) := by
  cases error with
  | none => rfl
  | some e =>
      by_cases h : e = []
      · rw [h]
        rfl
      · have hfilter : (some e).filter (fun e => decide (e ≠ [])) = some e :=
          Option.filter_some_pos (decide_eq_true h)
        rw [hfilter, printTopoError, if_neg h]
        rfl

/-- **What a warning says** is read off its line. -/
theorem echoed_error_inj {error error' : Option PyText}
    (h : echoed (printTopoError error) = echoed (printTopoError error')) :
    error.filter (· ≠ []) = error'.filter (· ≠ []) := by
  rw [printTopoError_eq, printTopoError_eq] at h
  cases hx : error.filter (· ≠ []) <;> cases hy : error'.filter (· ≠ []) <;>
    rw [hx, hy] at h
  · cases h
  · cases h
  · simpa [echoed] using h

/-- **The printed topology** says all that it is meant to show. -/
theorem echoed_printTopology_iff {showDetails : Bool} {topo topo' : Topology}
    (h : ∀ a ∈ topo.root.labels, OneLine a)
    (h' : ∀ a ∈ topo'.root.labels, OneLine a) :
    echoed (printTopology showDetails topo) =
      echoed (printTopology showDetails topo') ↔
      shownTopology showDetails topo = shownTopology showDetails topo' := by
  obtain ⟨⟨info, cs⟩, _, error⟩ := topo
  obtain ⟨⟨info', cs'⟩, _, error'⟩ := topo'
  have hlines : ∀ {info : TopologyInfo} {cs : List TopologyNode},
      (∀ a ∈ labels (.node info cs), OneLine a) →
      ∀ l ∈ printTopoRoot info ++ printTopoNodes cs [] showDetails,
        TreeLine l := by
    intro info cs h
    rw [labels_node] at h
    obtain ⟨hroot, hbelow⟩ := List.forall_mem_cons.mp h
    refine List.forall_mem_append.mpr ⟨treeLine_printTopoRoot hroot, ?_⟩
    exact treeLine_printTopoNodes fun c hc a ha =>
      hbelow a (List.mem_flatMap.mpr ⟨c, hc, ha⟩)
  have hwarning : ∀ error, echoed (printTopoError error) = [] ∨
      (echoed (printTopoError error)).head? = some '[' := by
    intro error
    rw [printTopoError_eq]
    cases error.filter (· ≠ []) with
    | none => exact .inl rfl
    | some e => exact .inr rfl
  have happend : ∀ l r, echoed (l ++ r) = echoed l ++ echoed r :=
    fun _ _ => List.flatMap_append
  simp only [printTopology, shownTopology, happend (_ ++ _),
    ShownTopology.mk.injEq]
  constructor
  · intro heq
    obtain ⟨hnodes, herror⟩ :=
      echoed_inj (hlines h) (hlines h') (hwarning _) (hwarning _) heq
    obtain ⟨hroot, hbelow⟩ := printTopoRoot_inj hnodes
    obtain ⟨hkind, hlabel, hsub⟩ := printTopoRoot_eq_iff.mp hroot
    exact ⟨hkind, hlabel, hsub, printTopoNodes_eq_iff.mp hbelow,
      echoed_error_inj herror⟩
  · rintro ⟨hkind, hlabel, hsub, hbelow, herror⟩
    rw [printTopoRoot_eq_iff.mpr ⟨hkind, hlabel, hsub⟩,
      printTopoNodes_eq_iff.mpr hbelow,
      printTopoError_eq, printTopoError_eq, herror]

/-- Two bridges on the root bus, or the second one behind the first. -/
def sampleBridges (nested : Bool) : Topology :=
  let bridge :=
    fun cs => RoseTree.node { id := [], kind := .pciBridge, label := ['b'] } cs
  ⟨.node systemInfo (if nested then [bridge [bridge []]]
    else [bridge [], bridge []]), [], none⟩

theorem echoed_printTopology_sample :
    echoed (printTopology true (sampleBridges true)) ≠
    echoed (printTopology true (sampleBridges false)) := by
  intro heq
  have hshown := (echoed_printTopology_iff (by decide) (by decide)).mp heq
  cases congrArg (fun t => t.below.length) hshown

end Telemetryd
