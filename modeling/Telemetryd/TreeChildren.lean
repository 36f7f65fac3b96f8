import Telemetryd.TreePaths

/-!
# Children that can be opened

The client opens a child by sending the path of the node with the name of the
child behind it.  The names are made in `_child_objects` and read in
`resolve_path`, so the two should be inverse to each other.  They are, but for
the `*` that stands for what a pointer leads to: `resolve_path` takes it for the
name of a member.
-/

namespace Telemetryd

open PyText

section

variable [UnicodeDb] {Obj : Type} {d : Drgn Obj}

/-- A listed child and the object it was described from. -/
def DescribedFrom (d : Drgn Obj) (obj : Obj) (c : TreeNode) (child : Obj) :
    Prop :=
  ∃ children, childObjects d obj = .ok children ∧ (c.name, child) ∈ children ∧
    describe d c.name child = .ok c

/-- The path of a child leads to its object, and expanding it shows the same
node. -/
def OpensAgain (d : Drgn Obj) (root : Obj) (rootName : PyText)
    (path : List PyText) (c : TreeNode)
    (child : Obj) : Prop :=
  resolvePath d root (path ++ [c.name]) = .ok child ∧
    ∃ e, expand d root rootName (path ++ [c.name]) = .ok e ∧ e.error = none ∧
      e.node = c

/-! ### One step further -/

/-- One step further than a path. -/
theorem reaches_snoc {root obj next : Obj} {path : List PyText} {step : PyText}
    (hreach : Reaches d root path obj)
    (hstep : resolveStep d obj step = .ok next) :
    Reaches d root (path ++ [step]) next := by
  induction hreach with
  | here obj => exact Reaches.step hstep (Reaches.here next)
  | step hfirst _ ih => exact Reaches.step hfirst (ih hstep)

/-- The last step is resolved at the object the path leads to. -/
theorem resolvePath_snoc {root obj : Obj} {path : List PyText}
    (hreach : Reaches d root path obj)
    (step : PyText) :
    resolvePath d root (path ++ [step]) = resolveStep d obj step := by
  induction hreach with
  | here obj =>
      change (resolveStep d obj step >>= fun next => resolvePath d next []) = _
      cases resolveStep d obj step <;> rfl
  | step hfirst _ ih =>
      rw [List.cons_append]
      unfold resolvePath
      rw [hfirst]
      exact ih

omit [UnicodeDb] in
/-- The step of an index is one. -/
theorem isIndexStep_indexText (i : Nat) : isIndexStep (indexText i) = true := by
  unfold isIndexStep indexText
  rw [List.cons_append, ← List.cons_append, List.getLast?_concat]
  rfl

omit [UnicodeDb] in
/-- Its number can be read back. -/
theorem inner_indexText (i : Nat) :
    ((indexText i).drop 1).dropLast = ofNat i := by
  unfold indexText
  rw [List.cons_append, List.drop_succ_cons, List.drop_zero,
    List.dropLast_concat]

/-- **The name of a child leads to it.** -/
theorem resolveStep_child (law : d.Lawful) {obj child : Obj} {name : PyText}
    (h : Child d obj name child) : resolveStep d obj name = .ok child := by
  cases h with
  | member hid hnames hname hchild =>
      have hplain : isIndexStep name = false := by
        unfold isIndexStep
        have := law.member_name _ _ _ hnames hname
        simp [this]
      unfold resolveStep
      rw [if_neg (by rw [hplain]; exact nofun)]
      exact hchild
  | @element _ _ i _ htype hi hmax hchild =>
      have hsmall : i < 10 ^ maxStrDigits := by
        have : 64 ≤ 2 ^ 64 := by norm_num
        exact lt_maxStrDigits_of_lt (by unfold maxArrayChildren at hmax; omega)
      unfold resolveStep
      rw [if_pos (isIndexStep_indexText i), inner_indexText,
        intOfText_ofNat hsmall]
      exact hchild

/-- The name of what a pointer leads to does not. -/
theorem resolveStep_pointsTo (law : d.Lawful) {obj child : Obj}
    (h : PointsTo d obj child) :
    resolveStep d obj "*".toList = .error .typeError := by
  obtain ⟨-, -, hnone, -⟩ := h
  exact law.member_typeError obj "*".toList hnone

/-! ### Opening a child -/

omit [UnicodeDb] in
/-- A node has the name it was described under. -/
theorem describe_name (law : d.Lawful) {name : PyText} {obj : Obj}
    {node : TreeNode}
    (h : describe d name obj = .ok node) : node.name = name := by
  obtain ⟨shown, hshown, hname, -⟩ := describe_spec law name obj
  rwa [Except.ok.inj (h.symm.trans hshown)]

/-- An expansion without an error has reached an object. -/
theorem reaches_of_expand {root : Obj} {rootName : PyText} {path : List PyText}
    {e : TreeExpansion}
    (hexpand : expand d root rootName path = .ok e) (herror : e.error = none) :
    ∃ obj, Reaches d root path obj := by
  unfold expand at hexpand
  by_cases hdeep : maxDepth < path.length
  · rw [if_pos hdeep] at hexpand
    cases hexpand
    cases herror
  · cases hresolve : resolvePath d root path with
    | ok obj => exact ⟨obj, reaches_iff.mpr hresolve⟩
    | error error =>
        rw [if_neg hdeep, hresolve] at hexpand
        cases error <;> cases hexpand <;> cases herror

/-- A path leads to one object. -/
theorem reaches_unique {root obj obj' : Obj} {path : List PyText}
    (h : Reaches d root path obj)
    (h' : Reaches d root path obj') : obj = obj' :=
  Except.ok.inj ((reaches_iff.mp h).symm.trans (reaches_iff.mp h'))

/-- A child opens again, unless it should list children that it has no list
of. -/
theorem opensAgain_iff (law : d.Lawful) {root obj child : Obj}
    (rootName : PyText)
    {path : List PyText} {c : TreeNode} (hlen : path.length < maxDepth)
    (hreach : Reaches d root path obj) (hchild : Child d obj c.name child)
    (hnode : describe d c.name child = .ok c) :
    OpensAgain d root rootName path c child ↔
      (path.length + 1 < maxDepth → Expandable d child → Listable d child) := by
  have hstep := resolveStep_child law hchild
  have hreach' := reaches_snoc hreach hstep
  have hlen' : (path ++ [c.name]).length = path.length + 1 := List.length_append
  have hname : (path ++ [c.name]).getLast?.getD rootName = c.name := by
    rw [List.getLast?_concat]
    rfl
  unfold OpensAgain
  rw [resolvePath_snoc hreach, hstep]
  by_cases hopen : Expandable d child ∧ path.length + 1 < maxDepth
  · obtain ⟨node, hshown, hexpand⟩ :=
      expand_open law rootName (by omega) hreach' hopen.1
    rw [hname, hnode] at hshown
    cases hshown
    cases lists_of_expandable law hopen.1 with
    | listed hlist children hok _ =>
        obtain ⟨nodes, hnodes, -⟩ := describeChildren_spec law children
        have hopened : expand d root rootName (path ++ [c.name]) = .ok
            { node := c, children := nodes, depth := (path ++ [c.name]).length,
              error := none } := by
          rw [hexpand, hok]
          simp only [bind, Except.bind, hnodes]
          rfl
        exact ⟨fun _ _ _ => hlist, fun _ => ⟨rfl, _, hopened, rfl, rfl⟩⟩
    | raised hlist error herror hraised =>
        have hescape : expand d root rootName (path ++ [c.name]) =
            .error error := by
          rw [hexpand, hraised]
          cases error
          case faultError => exact absurd trivial herror
          all_goals rfl
        refine ⟨?_, fun h => absurd (h hopen.2 hopen.1) hlist⟩
        rintro ⟨-, e, he, -⟩
        rw [hescape] at he
        cases he
  · obtain ⟨node, hshown, hexpand⟩ :=
      expand_closed law rootName (by omega) hreach' (by rwa [hlen'])
    rw [hname, hnode] at hshown
    cases hshown
    exact ⟨fun _ hlt hexp => absurd ⟨hexp, hlt⟩ hopen, fun _ =>
      ⟨rfl, _, hexpand, rfl, rfl⟩⟩

/-- **Every listed child can be opened, unless one of them is what a pointer
leads to.**  For every graph of objects and every path that expands without an
error, each child is found again by its name where the node is no pointer to
something other than a structure, and where the children that are opened have a
list of their own. -/
theorem children_open_iff (law : d.Lawful) {root : Obj} {rootName : PyText}
    {path : List PyText}
    {e : TreeExpansion} (hlen : path.length < maxDepth)
    (hexpand : expand d root rootName path = .ok e) (herror : e.error = none) :
    (∃ obj, Reaches d root path obj ∧ ∀ c ∈ e.children, ∃ child,
        DescribedFrom d obj c child ∧ OpensAgain d root rootName path c child) ↔
      ∀ obj, Reaches d root path obj → Expandable d obj →
        (∀ child, ¬ PointsTo d obj child) ∧
        (path.length + 1 < maxDepth → ∀ name child, Child d obj name child →
          Expandable d child → Listable d child) := by
  obtain ⟨obj, hreach⟩ := reaches_of_expand hexpand herror
  have hsame : ∀ {p : Obj → Prop}, (∃ o, Reaches d root path o ∧ p o) ↔ p obj :=
    fun {p} =>
    ⟨fun ⟨_, ho, hp⟩ => reaches_unique hreach ho ▸ hp, fun hp =>
      ⟨obj, hreach, hp⟩⟩
  have hsame' : ∀ {p : Obj → Prop}, (∀ o, Reaches d root path o → p o) ↔
      p obj := fun {p} =>
    ⟨fun h => h obj hreach, fun hp o ho => reaches_unique hreach ho ▸ hp⟩
  rw [hsame, hsame']
  by_cases hexp : Expandable d obj
  · obtain ⟨node, -, hshown⟩ := expand_open law rootName hlen hreach hexp
    cases lists_of_expandable law hexp with
    | raised hlist error herror' hraised =>
        rw [hshown, hraised] at hexpand
        cases error
        case faultError => exact absurd trivial herror'
        all_goals cases hexpand
    | listed hlist children hok hmem =>
        obtain ⟨nodes, hnodes, hleft, hright⟩ :=
          describeChildren_spec law children
        rw [hshown, hok] at hexpand
        simp only [bind, Except.bind, hnodes] at hexpand
        cases hexpand
        dsimp only
        constructor
        · intro hall _
          constructor
          · intro child hpoints
            obtain ⟨c, hc, hdescribe⟩ :=
              hleft ("*".toList, child) ((hmem _ _).mpr (Or.inr ⟨rfl, hpoints⟩))
            obtain ⟨_, -, hresolve, -⟩ := hall c hc
            rw [describe_name law hdescribe, resolvePath_snoc hreach,
              resolveStep_pointsTo law hpoints] at hresolve
            cases hresolve
          · intro hdeeper name child hchild
            obtain ⟨c, hc, hdescribe⟩ :=
              hleft (name, child) ((hmem _ _).mpr (Or.inl hchild))
            obtain rfl := describe_name law hdescribe
            obtain ⟨child', -, hopens⟩ := hall c hc
            have hresolve := hopens.1
            rw [resolvePath_snoc hreach, resolveStep_child law hchild]
              at hresolve
            cases hresolve
            exact (opensAgain_iff law rootName hlen hreach hchild hdescribe).mp
              hopens hdeeper
        · intro h c hc
          obtain ⟨hpoints, hlists⟩ := h hexp
          obtain ⟨⟨name, child⟩, hlisted, hdescribe⟩ := hright c hc
          obtain rfl := describe_name law hdescribe
          have hchild : Child d obj c.name child :=
            ((hmem _ _).mp hlisted).resolve_right fun ⟨_, hp⟩ =>
              hpoints child hp
          refine ⟨child, ⟨children, hok, hlisted, hdescribe⟩, ?_⟩
          exact (opensAgain_iff law rootName hlen hreach hchild hdescribe).mpr
            fun hdeeper => hlists hdeeper c.name child hchild
  · obtain ⟨node, -, hshown⟩ :=
      expand_closed law rootName hlen.le hreach fun h => hexp h.1
    rw [hshown] at hexpand
    cases hexpand
    exact ⟨fun _ h => absurd h hexp, fun _ => List.forall_mem_nil _⟩

end


namespace SmallObject

attribute [local instance] UnicodeDb.ascii

/-- The node of the structure in the small tree. -/
def deviceNode : TreeNode :=
  { name := "nvme0".toList, typeName := "struct nvme_dev".toList,
    kind := .struct,
    valueRepr := "<struct nvme_dev>".toList, address := none, isNull :=
      false, expandable := true }

/-- The node of the pointer. -/
def linkNode : TreeNode :=
  { name := "link".toList, typeName := "unsigned int".toList, kind := .pointer,
    valueRepr := "0x1000".toList, address := some 4096, isNull :=
      false, expandable := true }

/-- The node of the number. -/
def numberNode : TreeNode :=
  { name := "*".toList, typeName := "unsigned int".toList, kind := .scalar,
    valueRepr := "7".toList, address := none, isNull := false, expandable :=
      false }

/-- The sample: the device has one child. -/
theorem expand_device : expand drgn device "nvme0".toList []
    = .ok { node := deviceNode, children := [linkNode], depth := 0, error := none } := by
  decide +kernel

/-- Its child has one, too. -/
theorem expand_link : expand drgn device "nvme0".toList ["link".toList]
    = .ok { node := linkNode, children := [numberNode], depth := 1, error := none } := by
  decide +kernel

/-- The pointer is opened below the structure. -/
theorem children_open_device :
    ∃ obj, Reaches drgn device [] obj ∧ ∀ c ∈ [linkNode], ∃ child,
    DescribedFrom drgn obj c child ∧
      OpensAgain drgn device "nvme0".toList [] c child := by
  refine (children_open_iff drgn_lawful (by decide) expand_device rfl).mpr
    fun obj hreach _ => ?_
  obtain rfl : device = obj := Except.ok.inj (reaches_iff.mp hreach)
  refine ⟨fun child ⟨_, hpointer, _⟩ => absurd hpointer nofun,
    fun _ name child hchild _ => ?_⟩
  cases hchild with
  | member hid hnames hname hmember =>
      cases hid
      cases hnames
      cases List.mem_singleton.mp hname
      cases hmember
      exact beq_self_eq_true numberType
  | element htype => cases htype

/-- The number behind the pointer is listed as `*`, but its path raises
`TypeError`. -/
theorem pointee_not_opened : drgn.Lawful ∧
    expand drgn device "nvme0".toList ["link".toList]
      = .ok { node := linkNode, children := [numberNode], depth := 1, error := none } ∧
    expand drgn device "nvme0".toList ["link".toList, numberNode.name] =
      .error .typeError ∧
    ¬ ∃ obj, Reaches drgn device ["link".toList] obj ∧
      ∀ c ∈ [numberNode], ∃ child,
      DescribedFrom drgn obj c child ∧
        OpensAgain drgn device "nvme0".toList ["link".toList] c child := by
  refine ⟨drgn_lawful, expand_link, by decide +kernel, ?_⟩
  rintro ⟨obj, -, hall⟩
  obtain ⟨child, -, hresolve, -⟩ := hall numberNode List.mem_cons_self
  have hraised : resolvePath drgn device (["link".toList] ++ [numberNode.name])
      = .error .typeError := by decide
  rw [hraised] at hresolve
  cases hresolve

end SmallObject

end Telemetryd
