import Telemetryd.TreeWalk

/-!
# Paths of the pointer tree

A path comes from the client, so each of its steps may meet an object of any
type.  What drgn promises of its exceptions decides which steps are answered, if
only by an error that `expand` reports, and which raise an exception that leaves
it.  Then the children: which of them are listed, and which of those are found
again by the path that leads to them.
-/

namespace Telemetryd

open PyText

/-! ### What drgn promises -/

/-- The structure whose members an object of a type has: its own, or that of the
object it points to. -/
def compoundOf (t : CType) : Option Nat :=
  match unwrapTypedef t with
  | .compound _ _ id => some id
  | .pointer target =>
      match unwrapTypedef target with
      | .compound _ _ id => some id
      | _ => none
  | _ => none

/-- The indices that drgn takes. -/
def FitsWord (i : Int) : Prop := -2 ^ 63 ≤ i ∧ i < 2 ^ 63

section

variable {Obj : Type} (d : Drgn Obj)

/-- The elements of a type have a size, so they can be counted off. -/
def indexable (t : CType) : Bool :=
  match unwrapTypedef t with
  | .pointer target => d.hasSize target
  | .array element _ => d.hasSize element
  | _ => false

/-- What is documented of drgn's exceptions: `TypeError` where an object has
no members or no elements, `LookupError` for what it does not have, and
`FaultError` for memory that cannot be read.  Names of members are
identifiers. -/
structure Drgn.Lawful : Prop where
  member_caught : ∀ obj name e, (compoundOf (d.typeOf obj)).isSome = true →
    d.member obj name = .error e → e.IsCaught
  member_typeError : ∀ obj name, compoundOf (d.typeOf obj) = none →
    d.member obj name = .error .typeError
  index_overflow : ∀ obj i, ¬ FitsWord i → d.index obj i = .error .overflowError
  index_typeError : ∀ obj i, FitsWord i → indexable d (d.typeOf obj) = false →
    d.index obj i = .error .typeError
  index_caught : ∀ obj i e, FitsWord i → indexable d (d.typeOf obj) = true →
    d.index obj i = .error e → e.IsCaught
  deref_fault : ∀ obj target e, unwrapTypedef (d.typeOf obj) = .pointer target →
    d.hasSize target = true → d.index obj 0 = .error e → e.IsFault
  intOf_fault : ∀ obj target e, unwrapTypedef (d.typeOf obj) = .pointer target →
    d.intOf obj = .error e → e.IsFault
  stringOf_fault : ∀ obj e, looksLikeString (d.typeOf obj) = true →
    d.stringOf obj = .error e → e.IsFault
  str_fault : ∀ obj e, d.str obj = .error e → e.IsFault
  member_name : ∀ id names name, d.members id = some names → some name ∈ names →
    name.head? ≠ some '['

/-! ### The graph of the objects -/

/-- What can be opened: structures, arrays that are no text, and pointers that
lead somewhere. -/
def Expandable (obj : Obj) : Prop :=
  match unwrapTypedef (d.typeOf obj) with
  | .pointer target =>
      isByteType target = false ∧ ∃ address, d.intOf obj = .ok address ∧
        address ≠ 0
  | .compound _ _ _ => True
  | .array element _ => isByteType element = false
  | _ => False

/-- The children of an object have a list: its structure is complete, and what
it points to or is made of has a size. -/
def Listable (obj : Obj) : Prop :=
  match unwrapTypedef (d.typeOf obj) with
  | .pointer target =>
      match unwrapTypedef target with
      | .compound _ _ id => (d.members id).isSome = true
      | .void => True
      | _ => d.hasSize target = true
  | .compound _ _ id => (d.members id).isSome = true
  | .array element length => length.getD 0 = 0 ∨ d.hasSize element = true
  | _ => True

/-- An object below another, and the name it has there. -/
inductive Child (obj : Obj) : PyText → Obj → Prop
  | member {id : Nat} {names : List (Option PyText)} {name : PyText}
      {child : Obj}
      (hid : compoundOf (d.typeOf obj) = some id) (hnames : d.members id =
        some names)
      (hname : some name ∈ names) (hchild : d.member obj name = .ok child) :
        Child obj name child
  | element {element : CType} {length i : Nat} {child : Obj}
      (htype : unwrapTypedef (d.typeOf obj) =
        .array element (some length)) (hi : i < length)
      (hmax : i < maxArrayChildren) (hchild : d.index obj i = .ok child) :
      Child obj (indexText i) child

/-- The object behind a pointer that is neither to a structure nor to `void`. -/
def PointsTo (obj child : Obj) : Prop :=
  ∃ target, unwrapTypedef (d.typeOf obj) = .pointer target ∧
    compoundOf (d.typeOf obj) = none ∧
    unwrapTypedef target ≠ .void ∧ d.index obj 0 = .ok child

section

variable [UnicodeDb]

/-- One object is reached from another by the steps of a path. -/
inductive Reaches : Obj → List PyText → Obj → Prop
  | here (obj : Obj) : Reaches obj [] obj
  | step {obj next last : Obj} {step : PyText} {path : List PyText}
      (hstep : resolveStep d obj step =
        .ok next) (hrest : Reaches next path last) :
      Reaches obj (step :: path) last

/-- A step suits an object: an index that drgn takes, on an array or a pointer,
or else the name of a member, on a structure or a pointer to one. -/
def Suits (obj : Obj) (step : PyText) : Prop :=
  if isIndexStep step then
    ∃ i, intOfText (step.drop 1).dropLast = .ok i ∧ FitsWord i ∧
      indexable d (d.typeOf obj) = true
  else (compoundOf (d.typeOf obj)).isSome = true

/-- Each step suits the object that is reached before it, as far as the path
leads. -/
def PathSuits : Obj → List PyText → Prop
  | _, [] => True
  | obj, step :: path =>
      Suits d obj step ∧ ∀ next, resolveStep d obj step = .ok next →
        PathSuits next path

end

variable {d}

/-! ### Describing never fails -/

/-- What a branch of `describe` gives: the node, which can be opened where the
object can, or a fault, where it cannot. -/
def Shows (node : TreeNode) (canOpen : Prop) (x : Except TreeError TreeNode) :
    Prop :=
  (∃ shown, x = .ok shown ∧ shown.name = node.name ∧
    (shown.expandable = true ↔ canOpen)) ∨
    ((∃ text, x = .error (.faultError text)) ∧ ¬ canOpen)

theorem shows_ok {node shown : TreeNode} {canOpen : Prop}
    (hname : shown.name = node.name)
    (hopen : shown.expandable = true ↔ canOpen) :
    Shows node canOpen (.ok shown) :=
  Or.inl ⟨shown, rfl, hname, hopen⟩

/-- A read that raises faults only, and a node made from what was read. -/
theorem shows_bind {α : Type} {node : TreeNode} {canOpen : Prop}
    {x : Except TreeError α}
    {f : α → Except TreeError TreeNode}
    (hfault : ∀ e, x = .error e → e.IsFault ∧ ¬ canOpen)
    (hf : ∀ a, x = .ok a → Shows node canOpen (f a)) :
    Shows node canOpen (x >>= f) := by
  cases x with
  | ok a => exact hf a rfl
  | error e =>
      obtain ⟨he, hnot⟩ := hfault e rfl
      cases e
      case faultError text => exact Or.inr ⟨⟨text, rfl⟩, hnot⟩
      all_goals cases he

theorem shows_describeString (law : d.Lawful) {obj : Obj} {base node : TreeNode}
    {canOpen : Prop}
    (hstring : looksLikeString (d.typeOf obj) = true)
    (hname : node.name = base.name)
    (hnode : node.expandable = false) (hnot : ¬ canOpen) (unread : PyText) :
    Shows base canOpen (describeString d node obj unread) := by
  have hfalse : ∀ shown : TreeNode, shown.expandable = false →
      (shown.expandable = true ↔ canOpen) := fun shown h => by
    rw [h]
    exact ⟨nofun, fun hopen => absurd hopen hnot⟩
  unfold describeString
  cases htext : d.stringOf obj with
  | ok text => exact shows_ok hname (hfalse _ hnode)
  | error e =>
      have hfault := law.stringOf_fault obj e hstring htext
      cases e
      case faultError text => exact shows_ok hname (hfalse _ hnode)
      all_goals cases hfault

theorem shows_describePointer (law : d.Lawful) {obj : Obj} {target : CType}
    (htype : unwrapTypedef (d.typeOf obj) = .pointer target) (node : TreeNode)
    (hnode : node.expandable = false) :
    Shows node (Expandable d obj) (describePointer d node obj) := by
  have hlooks : looksLikeString (d.typeOf obj) = isByteType target := by
    simp only [looksLikeString, htype]
  have hopen : Expandable d obj ↔
      isByteType target = false ∧ ∃ address, d.intOf obj = .ok address ∧
        address ≠ 0 := by
    simp only [Expandable, htype]
  unfold describePointer
  refine shows_bind (fun e he =>
    ⟨law.intOf_fault obj target e htype he, ?_⟩) fun address haddress => ?_
  · rintro hexp
    obtain ⟨-, address, haddress, -⟩ := hopen.mp hexp
    rw [haddress] at he
    cases he
  · by_cases hstring : looksLikeString (d.typeOf obj) = true ∧ address ≠ 0
    · have hcond : (looksLikeString (d.typeOf obj) && !(address == 0)) =
          true := by
        simp [hstring.1, hstring.2]
      dsimp only
      rw [if_pos hcond]
      refine shows_describeString law hstring.1 ?_ ?_ (fun hexp => ?_) _
      · rfl
      · exact hnode
      · rw [hlooks, (hopen.mp hexp).1] at hstring
        exact absurd hstring.1 nofun
    · have hcond : ¬ (looksLikeString (d.typeOf obj) && !(address == 0)) =
          true := by
        simpa using hstring
      dsimp only
      rw [if_neg hcond]
      refine shows_ok rfl ?_
      rw [hopen, haddress]
      simp only [Bool.not_eq_true', beq_eq_false_iff_ne]
      refine ⟨fun hne => ⟨?_, address, rfl, hne⟩, fun ⟨_, a, ha, hne⟩ => ?_⟩
      · cases hbyte : isByteType target
        · rfl
        · exact absurd ⟨hlooks.trans hbyte, hne⟩ hstring
      · cases ha
        exact hne

theorem shows_describeArray (law : d.Lawful) {obj : Obj} {element : CType}
    {length : Option Nat}
    (htype : unwrapTypedef (d.typeOf obj) = .array element length)
    (node : TreeNode)
    (hnode : node.expandable = false) :
    Shows node (Expandable d obj) (describeArray d node obj) := by
  have hlooks : looksLikeString (d.typeOf obj) = isByteType element := by
    simp only [looksLikeString, htype]
  have hopen : Expandable d obj ↔ isByteType element = false := by
    simp only [Expandable, htype]
  unfold describeArray
  split
  case isTrue hstring =>
    refine shows_describeString law hstring rfl hnode (fun hexp => ?_) _
    rw [hlooks, hopen.mp hexp] at hstring
    cases hstring
  case isFalse hstring =>
    refine shows_ok rfl ?_
    rw [hlooks, Bool.not_eq_true] at hstring
    exact ⟨fun _ => hopen.mpr hstring, fun _ => rfl⟩

theorem shows_describeScalar (law : d.Lawful) {obj : Obj}
    (hnot : ¬ Expandable d obj)
    (node : TreeNode) (hnode : node.expandable = false) :
    Shows node (Expandable d obj) (describeScalar d node obj) := by
  have hfalse : node.expandable = true ↔ Expandable d obj := by
    rw [hnode]
    exact ⟨nofun, fun hopen => absurd hopen hnot⟩
  have hstr : ∀ f : PyText → PyText, Shows node (Expandable d obj)
      (d.str obj >>= fun text => pure { node with valueRepr := f text }) :=
        fun f =>
    shows_bind (fun e he => ⟨law.str_fault obj e he, hnot⟩) fun _ _ =>
      shows_ok rfl hfalse
  unfold describeScalar
  split
  · exact hstr enumeratorText
  · split
    · exact shows_ok rfl hfalse
    · exact hstr fun text => text

/-- **Describing never fails**: a node comes out, and it can be opened where the
object can. -/
theorem describe_spec (law : d.Lawful) (name : PyText) (obj : Obj) :
    ∃ node, describe d name obj = .ok node ∧ node.name = name ∧
      (node.expandable = true ↔ Expandable d obj) := by
  have hshows : ∀ node : TreeNode, node.kind = kindOf (d.typeOf obj) →
      node.expandable = false →
      Shows node (Expandable d obj) (describeValue d node obj) := by
    intro node hkind hnode
    unfold describeValue
    rw [hkind]
    cases htype : unwrapTypedef (d.typeOf obj)
    case pointer target =>
      simp only [kindOf, htype]
      exact shows_describePointer law htype node hnode
    case compound =>
      simp only [kindOf, htype]
      exact shows_ok rfl (by simp only [Expandable, htype])
    case array element length =>
      simp only [kindOf, htype]
      exact shows_describeArray law htype node hnode
    all_goals
      simp only [kindOf, htype]
      exact shows_describeScalar law
        (by simp only [Expandable, htype, not_false_iff]) node hnode
  unfold describe
  dsimp only
  generalize hnode :
    TreeNode.mk name (shortTypeName d (d.typeOf obj)) (kindOf (d.typeOf obj)) []
    none false false = node
  have hkind : node.kind = kindOf (d.typeOf obj) := by rw [← hnode]
  have hname : node.name = name := by rw [← hnode]
  have hexp : node.expandable = false := by rw [← hnode]
  rcases hshows node hkind hexp
    with ⟨shown, hok, hshown, hopen⟩ | ⟨⟨text, herr⟩, hnot⟩
  · rw [hok]
    exact ⟨shown, rfl, hshown.trans hname, hopen⟩
  · rw [herr]
    exact ⟨_, rfl, rfl, nofun, fun h => absurd h hnot⟩

/-- The children are described one by one. -/
theorem describeChildren_spec (law : d.Lawful)
    (children : List (PyText × Obj)) :
    ∃ nodes, describeChildren d children = .ok nodes ∧
      (∀ child ∈ children, ∃ node ∈ nodes, describe d child.1 child.2 =
        .ok node) ∧
      ∀ node ∈ nodes, ∃ child ∈ children, describe d child.1 child.2 =
        .ok node := by
  induction children with
  | nil => exact ⟨[], rfl, List.forall_mem_nil _, List.forall_mem_nil _⟩
  | cons child rest ih =>
      obtain ⟨name, obj⟩ := child
      obtain ⟨node, hnode, -⟩ := describe_spec law name obj
      obtain ⟨nodes, hnodes, hleft, hright⟩ := ih
      refine ⟨node :: nodes, ?_, ?_, ?_⟩
      · unfold describeChildren
        rw [hnode]
        dsimp only
        rw [hnodes]
        rfl
      · refine List.forall_mem_cons.mpr ⟨⟨node, List.mem_cons_self, hnode⟩,
          fun child hchild => ?_⟩
        obtain ⟨shown, hshown, heq⟩ := hleft child hchild
        exact ⟨shown, List.mem_cons_of_mem _ hshown, heq⟩
      · refine List.forall_mem_cons.mpr ⟨⟨(name, obj), List.mem_cons_self,
          hnode⟩, fun shown hshown => ?_⟩
        obtain ⟨child, hchild, heq⟩ := hright shown hshown
        exact ⟨child, List.mem_cons_of_mem _ hchild, heq⟩

/-! ### The list of children -/

/-- Where only caught errors are raised, what could be had is listed. -/
theorem answeredOnly_spec {items : List (PyText × Except TreeError Obj)}
    (h : ∀ item ∈ items, ∀ e, item.2 = .error e → e.IsCaught) :
    ∃ children, answeredOnly items = .ok children ∧
      ∀ name obj, (name, obj) ∈ children ↔ (name, Except.ok obj) ∈ items := by
  induction items with
  | nil => exact ⟨[], rfl, fun _ _ => by simp⟩
  | cons item items ih =>
      obtain ⟨hfirst, hrest⟩ := List.forall_mem_cons.mp h
      obtain ⟨children, hok, hmem⟩ := ih hrest
      obtain ⟨name, answer⟩ := item
      cases answer with
      | ok obj =>
          refine ⟨(name, obj) :: children, ?_, fun name' obj' => ?_⟩
          · unfold answeredOnly
            rw [hok]
            rfl
          · simp only [List.mem_cons, hmem, Prod.mk.injEq, Except.ok.injEq]
      | error e =>
          have he : e.IsCaught := hfirst e rfl
          have hskip : answeredOnly ((name, Except.error e) :: items) =
              answeredOnly items := by
            cases e
            case faultError => rfl
            case lookupError => rfl
            all_goals cases he
          refine ⟨children, hskip.trans hok, fun name' obj' => ?_⟩
          simp only [List.mem_cons, hmem, Prod.mk.injEq, reduceCtorEq,
            and_false, false_or]

/-- The members of a complete structure are listed. -/
theorem memberObjects_spec (law : d.Lawful) {obj : Obj} {id : Nat}
    {names : List (Option PyText)}
    (hid : compoundOf (d.typeOf obj) = some id)
    (hnames : d.members id = some names) :
    ∃ children, memberObjects d obj id = .ok children ∧ ∀ name child,
      (name, child) ∈ children ↔ some name ∈ names ∧
        d.member obj name = .ok child := by
  have hcaught : ∀ item ∈ ((names.filterMap fun name => name).map fun name =>
      (name, d.member obj name)), ∀ e, item.2 = .error e → e.IsCaught := by
    intro item hitem e he
    obtain ⟨name, -, rfl⟩ := List.mem_map.mp hitem
    exact law.member_caught obj name e (by rw [hid]; rfl) he
  obtain ⟨children, hok, hmem⟩ := answeredOnly_spec hcaught
  refine ⟨children, ?_, fun name child => ?_⟩
  · unfold memberObjects
    rw [hnames]
    exact hok
  · rw [hmem]
    simp only [List.mem_map, List.mem_filterMap, exists_eq_right, Prod.mk.injEq]
    exact ⟨fun ⟨_, hname, rfl, hchild⟩ => ⟨hname, hchild⟩,
      fun ⟨hname, hchild⟩ => ⟨name, hname, rfl, hchild⟩⟩

theorem memberObjects_incomplete {obj : Obj} {id : Nat}
    (h : d.members id = none) :
    memberObjects d obj id = .error .typeError := by
  unfold memberObjects
  rw [h]

theorem compoundOf_compound {t : CType} {kind : CompoundKind}
    {tag : Option PyText} {id : Nat}
    (h : unwrapTypedef t = .compound kind tag id) : compoundOf t = some id := by
  simp only [compoundOf, h]

theorem compoundOf_pointer {t target : CType}
    (h : unwrapTypedef t = .pointer target) :
    compoundOf t = match unwrapTypedef target with
      | .compound _ _ id => some id
      | _ => none := by
  simp only [compoundOf, h]

theorem compoundOf_array {t element : CType} {length : Option Nat}
    (h : unwrapTypedef t = .array element length) : compoundOf t = none := by
  simp only [compoundOf, h]

/-- An object that can be opened has a list of children, unless that list raises
an exception which no handler is for. -/
inductive Lists (d : Drgn Obj) (obj : Obj) : Prop
  | listed (hlist : Listable d obj) (children : List (PyText × Obj))
      (hok : childObjects d obj = .ok children)
      (hmem : ∀ name child, (name, child) ∈ children ↔
        Child d obj name child ∨ name = "*".toList ∧ PointsTo d obj child)
  | raised (hlist : ¬ Listable d obj) (e : TreeError) (he : ¬ e.IsCaught)
      (herr : childObjects d obj = .error e)

theorem not_isCaught_typeError : ¬ TreeError.typeError.IsCaught := nofun

/-- The children that are members. -/
theorem child_iff_member {obj child : Obj} {id : Nat}
    {names : List (Option PyText)} {name : PyText}
    (hid : compoundOf (d.typeOf obj) = some id)
    (hnames : d.members id = some names) :
    (Child d obj name child ∨ name = "*".toList ∧ PointsTo d obj child) ↔
      some name ∈ names ∧ d.member obj name = .ok child := by
  constructor
  · rintro (hchild | ⟨-, target, -, hnone, -⟩)
    · cases hchild with
      | member hid' hnames' hname hchild =>
          obtain rfl := Option.some.inj (hid.symm.trans hid')
          obtain rfl := Option.some.inj (hnames.symm.trans hnames')
          exact ⟨hname, hchild⟩
      | element htype =>
          rw [compoundOf_array htype] at hid
          cases hid
    · rw [hid] at hnone
      cases hnone
  · rintro ⟨hname, hchild⟩
    exact Or.inl (Child.member hid hnames hname hchild)

/-- The members of a structure are listed, if it is complete. -/
theorem lists_members (law : d.Lawful) {obj : Obj} {id : Nat}
    (hid : compoundOf (d.typeOf obj) = some id)
    (hlist : Listable d obj ↔ (d.members id).isSome = true)
    (hobjects : childObjects d obj = memberObjects d obj id) : Lists d obj := by
  cases hnames : d.members id with
  | none =>
      refine Lists.raised ?_ .typeError not_isCaught_typeError
        (hobjects.trans (memberObjects_incomplete hnames))
      rw [hlist, hnames]
      exact nofun
  | some names =>
      obtain ⟨children, hok, hmem⟩ := memberObjects_spec law hid hnames
      refine Lists.listed ?_ children (hobjects.trans hok) fun name child => ?_
      · rw [hlist, hnames]
        rfl
      · rw [hmem, child_iff_member hid hnames]

/-- What a pointer leads to is listed as `*`, if it has a size. -/
theorem lists_pointee (law : d.Lawful) {obj : Obj} {target : CType}
    (htype : unwrapTypedef (d.typeOf obj) = .pointer target)
    (hnone : compoundOf (d.typeOf obj) = none)
    (hvoid : unwrapTypedef target ≠ .void)
    (hlist : Listable d obj ↔ d.hasSize target = true)
    (hobjects : childObjects d obj
      = onFault ((fun child => [("*".toList, child)]) <$>
        d.index obj 0) fun _ => []) :
    Lists d obj := by
  have hzero : FitsWord 0 := ⟨by norm_num, by norm_num⟩
  have hindexable : indexable d (d.typeOf obj) = d.hasSize target := by
    simp only [indexable, htype]
  have hnoChild : ∀ name child, ¬ Child d obj name child := by
    intro name child hchild
    cases hchild with
    | member hid => exact absurd (hnone.symm.trans hid) nofun
    | element helement => exact absurd (htype.symm.trans helement) nofun
  have hpoints : ∀ child, PointsTo d obj child ↔ d.index obj 0 = .ok child := by
    refine fun child =>
      ⟨?_, fun hindex => ⟨target, htype, hnone, hvoid, hindex⟩⟩
    rintro ⟨-, -, -, -, hindex⟩
    exact hindex
  by_cases hsize : d.hasSize target = true
  · cases hindex : d.index obj 0 with
    | ok child =>
        rw [hindex] at hobjects
        refine Lists.listed (hlist.mpr hsize) _ hobjects fun name child' => ?_
        rw [hpoints, hindex, List.mem_singleton, Prod.mk.injEq, Except.ok.injEq,
          eq_comm (a := child)]
        exact ⟨Or.inr, fun h => h.resolve_left (hnoChild name child')⟩
    | error e =>
        have hfault := law.deref_fault obj target e htype hsize hindex
        rw [hindex] at hobjects
        have hempty : childObjects d obj = .ok [] := by
          cases e
          case faultError => exact hobjects
          all_goals cases hfault
        refine Lists.listed (hlist.mpr hsize) _ hempty fun name child => ?_
        rw [hpoints, hindex]
        exact ⟨nofun, fun h =>
          absurd (h.resolve_left (hnoChild name child)).2 nofun⟩
  · have herr :=
      law.index_typeError obj 0 hzero (by rw [hindexable]; simpa using hsize)
    rw [herr] at hobjects
    exact Lists.raised (fun h => hsize (hlist.mp h)) .typeError
      not_isCaught_typeError hobjects

/-- The elements of an array are listed, if they have a size. -/
theorem lists_elements (law : d.Lawful) {obj : Obj} {element : CType}
    {length : Option Nat}
    (htype : unwrapTypedef (d.typeOf obj) = .array element length) :
    Lists d obj := by
  have hlist : Listable d obj ↔ length.getD 0 = 0 ∨
      d.hasSize element = true := by
    simp only [Listable, htype]
  have hindexable : indexable d (d.typeOf obj) = d.hasSize element := by
    simp only [indexable, htype]
  have hobjects : childObjects d obj = answeredOnly ((List.range
      (min (length.getD 0) maxArrayChildren)).map fun i =>
        (indexText i, d.index obj i)) := by
    simp only [childObjects, htype]
  have hfits : ∀ i : Nat, i < maxArrayChildren → FitsWord i := by
    intro i hi
    unfold maxArrayChildren at hi
    exact ⟨by omega, by omega⟩
  by_cases hlistable : Listable d obj
  · have hcaught :
        ∀ item ∈ (List.range (min (length.getD 0) maxArrayChildren)).map
        (fun i => (indexText i, d.index obj i)), ∀ e, item.2 = .error e →
          e.IsCaught := by
      intro item hitem e he
      obtain ⟨i, hi, rfl⟩ := List.mem_map.mp hitem
      have hi := List.mem_range.mp hi
      have hsize : d.hasSize element = true :=
        (hlist.mp hlistable).resolve_left (by omega)
      exact law.index_caught obj i e (hfits i (by omega))
        (by rw [hindexable, hsize]) he
    obtain ⟨children, hok, hmem⟩ := answeredOnly_spec hcaught
    refine Lists.listed hlistable children (hobjects.trans hok)
      fun name child => ?_
    rw [hmem]
    simp only [List.mem_map, List.mem_range, Prod.mk.injEq]
    constructor
    · rintro ⟨i, hi, rfl, hchild⟩
      obtain ⟨n, rfl⟩ : ∃ n, length = some n := by
        cases length with
        | none => exact absurd hi (by simp)
        | some n => exact ⟨n, rfl⟩
      exact Or.inl (Child.element htype (by simpa using (lt_min_iff.mp hi).1)
        (lt_min_iff.mp hi).2 hchild)
    · rintro (hchild | ⟨-, target, hpointer, -⟩)
      · cases hchild with
        | member hid =>
            exact absurd ((compoundOf_array htype).symm.trans hid) nofun
        | element htype' hi hmax hchild =>
            cases htype.symm.trans htype'
            exact ⟨_, lt_min hi hmax, rfl, hchild⟩
      · exact absurd (htype.symm.trans hpointer) nofun
  · have hpos : 0 < length.getD 0 := Nat.pos_of_ne_zero fun h =>
      hlistable (hlist.mpr (Or.inl h))
    have hsize : d.hasSize element = false := by
      cases hs : d.hasSize element
      · rfl
      · exact absurd (hlist.mpr (Or.inr hs)) hlistable
    have herr :=
      law.index_typeError obj 0 (hfits 0 (by decide)) (hindexable.trans hsize)
    refine Lists.raised hlistable .typeError not_isCaught_typeError ?_
    obtain ⟨n, hn⟩ : ∃ n, min (length.getD 0) maxArrayChildren = n + 1 :=
      ⟨min (length.getD 0)
        maxArrayChildren - 1, by unfold maxArrayChildren; omega⟩
    rw [hobjects, hn, List.range_succ_eq_map, List.map_cons]
    change answeredOnly ((indexText 0, d.index obj (0 : Int)) :: _) = _
    rw [herr]
    rfl

/-- **An object that can be opened lists its children**, or raises. -/
theorem lists_of_expandable (law : d.Lawful) {obj : Obj}
    (hexp : Expandable d obj) : Lists d obj := by
  cases htype : unwrapTypedef (d.typeOf obj)
  case pointer target =>
    obtain ⟨-, address, haddress, hne⟩ :
        isByteType target = false ∧ ∃ address, d.intOf obj = .ok address ∧
          address ≠ 0 := by
      simpa only [Expandable, htype] using hexp
    have hobjects : childObjects d obj = match unwrapTypedef target with
        | .compound _ _ id => memberObjects d obj id
        | .void => pure []
        | _ =>
            onFault ((fun child => [("*".toList, child)]) <$>
              d.index obj 0) fun _ => [] := by
      simp only [childObjects, htype, haddress]
      exact if_neg hne
    have hcompound := compoundOf_pointer htype
    have hlist : Listable d obj ↔ match unwrapTypedef target with
        | .compound _ _ id => (d.members id).isSome = true
        | .void => True
        | _ => d.hasSize target = true := by
      simp only [Listable, htype]
    cases htarget : unwrapTypedef target
    case compound kind tag id =>
      rw [htarget] at hobjects hcompound hlist
      exact lists_members law hcompound hlist hobjects
    case void =>
      rw [htarget] at hobjects hcompound hlist
      refine Lists.listed (hlist.mpr trivial) [] hobjects fun name child => ?_
      refine ⟨fun hmem => absurd hmem List.not_mem_nil, ?_⟩
      rintro (hchild | ⟨-, target', hpointer, -, hvoid, -⟩)
      · cases hchild with
        | member hid => cases hcompound.symm.trans hid
        | element helement => cases htype.symm.trans helement
      · cases htype.symm.trans hpointer
        exact absurd htarget hvoid
    all_goals
      rw [htarget] at hobjects hcompound hlist
      exact lists_pointee law htype hcompound (by simp [htarget]) hlist hobjects
  case compound kind tag id =>
    refine lists_members law (compoundOf_compound htype) ?_ ?_
    · simp only [Listable, htype]
    · simp only [childObjects, htype]
  case array element length => exact lists_elements law htype
  all_goals exact absurd hexp (by simp only [Expandable, htype, not_false_iff])

section

variable [UnicodeDb]

/-! ### Following a path -/

theorem reaches_iff {root last : Obj} {path : List PyText} :
    Reaches d root path last ↔ resolvePath d root path = .ok last := by
  constructor
  · intro h
    induction h with
    | here obj => rfl
    | step hstep _ ih =>
        unfold resolvePath
        rw [hstep]
        exact ih
  · intro h
    induction path generalizing root with
    | nil =>
        cases h
        exact Reaches.here _
    | cons step path ih =>
        unfold resolvePath at h
        cases hstep : resolveStep d root step with
        | error e =>
            rw [hstep] at h
            cases h
        | ok next =>
            rw [hstep] at h
            exact Reaches.step hstep (ih h)

/-- A step that suits the object is answered; any other raises what no handler
is for. -/
theorem suits_iff (law : d.Lawful) (obj : Obj) (step : PyText) :
    Suits d obj step ↔ ∀ e, resolveStep d obj step = .error e → e.IsCaught := by
  have hescape : ∀ {x : Except TreeError Obj} (e : TreeError), x = .error e →
      ¬ e.IsCaught →
      ¬ ∀ e, x = .error e → e.IsCaught := fun e hx he h => he (h e hx)
  unfold Suits resolveStep
  by_cases hstep : isIndexStep step = true
  · rw [if_pos hstep, if_pos hstep]
    cases hread : intOfText (step.drop 1).dropLast with
    | error e =>
        exact ⟨nofun, fun h => absurd h (hescape .valueError rfl nofun)⟩
    | ok i =>
        have hsame : (∃ j, Except.ok i = (Except.ok j : Except PyError Int) ∧
            FitsWord j ∧
            indexable d (d.typeOf obj) = true) ↔ FitsWord i ∧
              indexable d (d.typeOf obj) = true := by
          constructor
          · rintro ⟨j, hj, hrest⟩
            cases hj
            exact hrest
          · exact fun h => ⟨i, rfl, h⟩
        rw [hsame]
        dsimp only
        by_cases hfits : FitsWord i
        · cases hindex : indexable d (d.typeOf obj)
          · exact ⟨fun h => absurd h.2 nofun,
              fun h => absurd h
                (hescape _ (law.index_typeError obj i hfits hindex) nofun)⟩
          · exact ⟨fun _ e he => law.index_caught obj i e hfits hindex he,
              fun _ => ⟨hfits, rfl⟩⟩
        · exact ⟨fun h => absurd h.1 hfits,
            fun h => absurd h
              (hescape _ (law.index_overflow obj i hfits) nofun)⟩
  · rw [if_neg hstep, if_neg hstep]
    cases hid : compoundOf (d.typeOf obj) with
    | none =>
        exact ⟨nofun, fun h =>
          absurd h (hescape _ (law.member_typeError obj step hid) nofun)⟩
    | some id =>
        exact ⟨fun _ e he => law.member_caught obj step e (by rw [hid]; rfl) he,
          fun _ => rfl⟩

/-- **The steps of a path are answered as long as they suit the objects.** -/
theorem pathSuits_iff (law : d.Lawful) {root : Obj} {path : List PyText} :
    PathSuits d root path ↔ ∀ e, resolvePath d root path = .error e →
      e.IsCaught := by
  induction path generalizing root with
  | nil => exact ⟨fun _ _ => nofun, fun _ => trivial⟩
  | cons step path ih =>
      unfold PathSuits resolvePath
      rw [suits_iff law]
      cases resolveStep d root step with
      | error e =>
          exact ⟨fun h e' he' => h.1 e' (by cases he'; rfl),
            fun h => ⟨fun e' he' => h e' (by cases he'; rfl), nofun⟩⟩
      | ok next =>
          refine ⟨fun h => ih.mp (h.2 next rfl), fun h => ⟨nofun, ?_⟩⟩
          rintro next' heq
          cases heq
          exact ih.mpr h

/-! ### Expanding -/

/-- An object that is not opened is shown alone. -/
theorem expand_closed (law : d.Lawful) {root obj : Obj} (rootName : PyText)
    {path : List PyText}
    (hlen : path.length ≤ maxDepth) (hreach : Reaches d root path obj)
    (hclosed : ¬ (Expandable d obj ∧ path.length < maxDepth)) :
    ∃ node, describe d (path.getLast?.getD rootName) obj = .ok node ∧
      expand d root rootName path
        = .ok { node := node, children := [], depth := path.length, error := none } := by
  obtain ⟨node, hnode, -, hopen⟩ :=
    describe_spec law (path.getLast?.getD rootName) obj
  refine ⟨node, hnode, ?_⟩
  unfold expand
  rw [if_neg (Nat.not_lt.mpr hlen), reaches_iff.mp hreach]
  dsimp only
  rw [hnode]
  simp only [bind, Except.bind]
  rw [if_neg (by rwa [hopen])]
  rfl

/-- An object that is opened is shown with its children, if these can be
listed. -/
theorem expand_open (law : d.Lawful) {root obj : Obj} (rootName : PyText)
    {path : List PyText}
    (hlen : path.length < maxDepth) (hreach : Reaches d root path obj)
    (hexp : Expandable d obj) :
    ∃ node, describe d (path.getLast?.getD rootName) obj = .ok node ∧
      expand d root rootName path
        = onFault (childObjects d obj >>= describeChildren d) (fun _ => []) >>= fun children =>
            pure { node := node, children := children, depth := path.length, error := none } := by
  obtain ⟨node, hnode, -, hopen⟩ :=
    describe_spec law (path.getLast?.getD rootName) obj
  refine ⟨node, hnode, ?_⟩
  unfold expand
  rw [if_neg (by omega), reaches_iff.mp hreach]
  dsimp only
  rw [hnode]
  simp only [bind, Except.bind]
  rw [if_pos ⟨hopen.mpr hexp, hlen⟩]

/-- A path that cannot be followed ends in a report of the exception, if one of
the handlers is for it, and in the exception otherwise. -/
theorem expand_error {root : Obj} (rootName : PyText) {path : List PyText}
    (hlen : path.length ≤ maxDepth) {error : TreeError}
    (hresolve : resolvePath d root path = .error error) :
    error.IsCaught ∧
      (∃ e, expand d root rootName path = .ok e ∧ e.error.isSome = true) ∨
      ¬ error.IsCaught ∧ expand d root rootName path = .error error := by
  unfold expand
  rw [if_neg (Nat.not_lt.mpr hlen), hresolve]
  cases error
  case faultError => exact Or.inl ⟨trivial, _, rfl, rfl⟩
  case lookupError => exact Or.inl ⟨trivial, _, rfl, rfl⟩
  all_goals exact Or.inr ⟨nofun, rfl⟩

/-- An object that is opened is shown exactly if it has a list of children. -/
theorem expand_open_returns_iff (law : d.Lawful) {root obj : Obj}
    (rootName : PyText)
    {path : List PyText} (hlen : path.length < maxDepth)
    (hreach : Reaches d root path obj)
    (hexp : Expandable d obj) :
    (∃ e, expand d root rootName path = .ok e) ↔ Listable d obj := by
  obtain ⟨node, -, hexpand⟩ := expand_open law rootName hlen hreach hexp
  cases lists_of_expandable law hexp with
  | listed hlist children hok hmem =>
      obtain ⟨nodes, hnodes, -⟩ := describeChildren_spec law children
      rw [hexpand, hok]
      simp only [bind, Except.bind, hnodes]
      exact ⟨fun _ => hlist, fun _ => ⟨_, rfl⟩⟩
  | raised hlist error herror hraised =>
      have hescape : expand d root rootName path = .error error := by
        rw [hexpand, hraised]
        cases error
        case faultError => exact absurd trivial herror
        all_goals rfl
      rw [hescape]
      exact ⟨fun ⟨_, he⟩ => absurd he nofun, fun h => absurd h hlist⟩

/-- **Expanding returns where every step suits the object it meets and the
object at the end has a list of children.**  What is reached or cannot be had is
then in the result, the latter in its `error`.  Any other path of at most ten
steps ends in an exception. -/
theorem expand_returns_iff (law : d.Lawful) (root : Obj) (rootName : PyText)
    (path : List PyText) :
    (∃ e, expand d root rootName path = .ok e ∧
        ((∃ obj, Reaches d root path obj) ∨ e.error.isSome = true)) ↔
      maxDepth < path.length ∨ PathSuits d root path ∧
        ∀ obj, Reaches d root path obj → path.length < maxDepth →
          Expandable d obj →
          Listable d obj := by
  by_cases hdeep : maxDepth < path.length
  · refine ⟨fun _ => Or.inl hdeep, fun _ => ?_⟩
    unfold expand
    rw [if_pos hdeep]
    exact ⟨_, rfl, Or.inr rfl⟩
  have hlen : path.length ≤ maxDepth := Nat.not_lt.mp hdeep
  rw [pathSuits_iff law, or_iff_right hdeep]
  cases hresolve : resolvePath d root path with
  | error error =>
      have hnone : ∀ obj, ¬ Reaches d root path obj := by
        intro obj hreach
        rw [reaches_iff, hresolve] at hreach
        cases hreach
      rcases expand_error rootName hlen hresolve
        with ⟨hcaught, e, he, herror⟩ | ⟨hraised, he⟩
      · refine ⟨fun _ =>
          ⟨fun error' heq => ?_, fun obj hreach => absurd hreach (hnone obj)⟩,
          fun _ => ⟨e, he, Or.inr herror⟩⟩
        cases heq
        exact hcaught
      · rw [he]
        exact ⟨fun ⟨_, h, _⟩ => absurd h nofun, fun h =>
          absurd (h.1 error rfl) hraised⟩
  | ok obj =>
      have hreach : Reaches d root path obj := reaches_iff.mpr hresolve
      have hlast : ∀ obj', Reaches d root path obj' → obj = obj' :=
        fun obj' hreach' =>
        Except.ok.inj (hresolve.symm.trans (reaches_iff.mp hreach'))
      by_cases hopen : Expandable d obj ∧ path.length < maxDepth
      · have hopened :=
          expand_open_returns_iff law rootName hopen.2 hreach hopen.1
        constructor
        · rintro ⟨e, he, -⟩
          refine ⟨nofun, fun obj' hreach' _ _ => ?_⟩
          exact hlast obj' hreach' ▸ hopened.mp ⟨e, he⟩
        · rintro ⟨-, h⟩
          obtain ⟨e, he⟩ := hopened.mpr (h obj hreach hopen.2 hopen.1)
          exact ⟨e, he, Or.inl ⟨obj, hreach⟩⟩
      · obtain ⟨node, -, hexpand⟩ :=
          expand_closed law rootName hlen hreach hopen
        refine ⟨fun _ => ⟨nofun, fun obj' hreach' hshort hexp => ?_⟩,
          fun _ => ⟨_, hexpand, Or.inl ⟨obj, hreach⟩⟩⟩
        obtain rfl := hlast obj' hreach'
        exact absurd ⟨hexp, hshort⟩ hopen

end

end


/-! ### A small tree -/

/-- The objects of a small tree: a structure, a pointer in it and the number
that the pointer leads to. -/
inductive SmallObject where
  | device
  | link
  | number
  deriving DecidableEq

namespace SmallObject

/-- `unsigned int` -/
def numberType : CType := .int "unsigned int".toList 4

/-- `struct nvme_dev { unsigned int *link; }` -/
def drgn : Drgn SmallObject where
  typeOf
    | device => .compound .struct (some "nvme_dev".toList) 0
    | link => .pointer numberType
    | number => numberType
  members id := if id = 0 then some [some "link".toList] else none
  hasSize t := t == numberType
  typeStr _ := "unsigned int".toList
  member
    | device, name =>
        if name = "link".toList then .ok link
          else .error (.lookupError "no member".toList)
    | _, _ => .error .typeError
  index obj i :=
    if -2 ^ 63 ≤ i ∧ i < 2 ^ 63 then
      match obj with
      | link => .ok number
      | _ => .error .typeError
    else .error .overflowError
  intOf _ := .ok 4096
  stringOf _ := .ok []
  valueStr _ := .ok "7".toList
  str _ := .ok "(unsigned int)7".toList
  addressOf _ := .ok none

theorem drgn_lawful : drgn.Lawful where
  member_caught obj name e hid he := by
    cases obj
    case device =>
      change (if name = "link".toList then Except.ok link
        else Except.error (TreeError.lookupError "no member".toList)) = _ at he
      split at he
      · cases he
      · cases he
        trivial
    all_goals exact absurd hid nofun
  member_typeError obj name hid := by
    cases obj
    case device => exact absurd hid nofun
    all_goals rfl
  index_overflow obj i hi := if_neg hi
  index_typeError obj i hi hobj := by
    refine (if_pos hi).trans ?_
    cases obj
    case link => exact absurd hobj (by decide)
    all_goals rfl
  index_caught obj i e hi hobj he := by
    cases obj
    case link =>
      have hok : drgn.index link i = .ok number := if_pos hi
      rw [hok] at he
      cases he
    all_goals exact absurd hobj (by decide)
  deref_fault obj target e htype hsize he := by
    cases obj
    case link => cases he
    all_goals cases htype
  intOf_fault obj target e htype he := nomatch he
  stringOf_fault obj e hstring he := nomatch he
  str_fault obj e he := nomatch he
  member_name id names name hnames hname := by
    change (if id = 0 then some [some "link".toList] else none) =
      some names at hnames
    split at hnames
    · cases hnames
      cases List.mem_singleton.mp hname
      decide
    · cases hnames

attribute [local instance] UnicodeDb.ascii

/-- The pointer is reached, and what it leads to has a size. -/
theorem expand_returns_link :
    ∃ e, expand drgn device "nvme0".toList ["link".toList] = .ok e ∧
      ((∃ obj, Reaches drgn device ["link".toList] obj) ∨
        e.error.isSome = true) := by
  refine (expand_returns_iff drgn_lawful device "nvme0".toList
    ["link".toList]).mpr (Or.inr ⟨?_, ?_⟩)
  · exact ⟨rfl, fun _ _ => trivial⟩
  · intro obj hreach _ _
    obtain rfl : link = obj := Except.ok.inj (reaches_iff.mp hreach)
    exact beq_self_eq_true numberType

/-- An index that is no number raises `ValueError`, which is not caught. -/
theorem malformed_index_escapes : drgn.Lawful ∧
    ¬ ∃ e, expand drgn device "nvme0".toList ["[abc]".toList] = .ok e ∧
      ((∃ obj, Reaches drgn device ["[abc]".toList] obj) ∨
        e.error.isSome = true) := by
  have hraised : expand drgn device "nvme0".toList ["[abc]".toList] =
      .error .valueError := by
    decide +kernel
  refine ⟨drgn_lawful, ?_⟩
  rintro ⟨e, he, -⟩
  rw [hraised] at he
  cases he

end SmallObject

end Telemetryd
