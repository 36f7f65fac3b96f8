import Mathlib.Data.List.TakeWhile
import Telemetryd.Adapters

/-!
# The jobs of fio, in a command line and in a file

The two parsers of the adapter read the same rule: what stands before the first
job is the default of every job, and the options of a job override it.  A
command line and a job file with the same options give the same dictionaries.
-/

namespace Telemetryd

open PyText

/-! ### Words -/

/-- A character that means nothing to a shell or in a job file. -/
def isWordChar (c : Char) : Bool :=
  !isSpace c && !Shlex.isSpecial c && !decide (c ∈ ";#=[]".toList)

/-- A word that needs no quotes, in a command line or a job file. -/
structure IsWord (w : PyText) : Prop where
  nonempty : w ≠ []
  chars : ∀ c ∈ w, isWordChar c = true

/-- A key and its value. -/
structure IsOption (o : PyText × PyText) : Prop where
  key : IsWord o.1
  undashed : o.1.head? ≠ some '-'
  unnamed : o.1 ≠ "name".toList
  value : IsWord o.2

/-- The name of a section and its options. -/
structure IsSection [UnicodeTextDb] (s : PyText × List (PyText × PyText)) :
    Prop where
  name : IsWord s.1
  ofJob : UnicodeTextDb.lower s.1 ≠ "global".toList
  options : ∀ o ∈ s.2, IsOption o

instance decidableIsWord (w : PyText) : Decidable (IsWord w) :=
  decidable_of_iff (w ≠ [] ∧ ∀ c ∈ w, isWordChar c = true)
    ⟨fun h => ⟨h.1, h.2⟩, fun h => ⟨h.nonempty, h.chars⟩⟩

instance decidableIsOption (o : PyText × PyText) : Decidable (IsOption o) :=
  decidable_of_iff (IsWord o.1 ∧ o.1.head? ≠ some '-' ∧ o.1 ≠ "name".toList ∧
    IsWord o.2)
    ⟨fun h => ⟨h.1, h.2.1, h.2.2.1, h.2.2.2⟩, fun h =>
      ⟨h.key, h.undashed, h.unnamed, h.value⟩⟩

instance decidableIsSection [UnicodeTextDb]
    (s : PyText × List (PyText × PyText)) :
    Decidable (IsSection s) :=
  decidable_of_iff (IsWord s.1 ∧ UnicodeTextDb.lower s.1 ≠ "global".toList ∧
    ∀ o ∈ s.2, IsOption o)
    ⟨fun h => ⟨h.1, h.2.1, h.2.2⟩, fun h => ⟨h.name, h.ofJob, h.options⟩⟩

/-- Letters, digits and some punctuation. -/
theorem isWordChar_of_ascii {c : Char}
    (h : c.isAlphanum = true ∨ c ∈ "_./:-".toList) :
    isWordChar c = true := by
  rcases h with hc | hc
  · have hrange : (65 ≤ c.toNat ∧ c.toNat ≤ 90) ∨
        (97 ≤ c.toNat ∧ c.toNat ≤ 122) ∨
        (48 ≤ c.toNat ∧ c.toNat ≤ 57) := by
      have hbounds : ((decide (65 ≤ c.val ∧ c.val ≤ 90) ||
          (decide (97 ≤ c.val) && decide (c.val ≤ 122))) ||
          (decide (48 ≤ c.val) && decide (c.val ≤ 57))) = true := hc
      simp only [Bool.or_eq_true, Bool.and_eq_true, decide_eq_true_eq,
        UInt32.le_iff_toNat_le] at hbounds
      rcases hbounds with (hc | hc) | hc
      · exact Or.inl hc
      · exact Or.inr (Or.inl hc)
      · exact Or.inr (Or.inr hc)
    have hspace : isSpace c = false := by
      unfold isSpace
      simp only [Bool.or_eq_false_iff, Bool.and_eq_false_iff,
        beq_eq_false_iff_ne,
        decide_eq_false_iff_not]
      omega
    have hother : ∀ d : Char, d.toNat < 48 ∨ (57 < d.toNat ∧ d.toNat < 65) ∨
        (90 < d.toNat ∧ d.toNat < 97) → c ≠ d := by
      intro d hd heq
      rw [heq] at hrange
      omega
    have hspecial : Shlex.isSpecial c = false := by
      have hquote := hother '\'' (by decide)
      have hdouble := hother '"' (by decide)
      have hescape := hother '\\' (by decide)
      simp [Shlex.isSpecial, Shlex.isQuote, Shlex.isEscape, hquote,
        hdouble, hescape]
    have hmark : c ∉ ";#=[]".toList := by
      have hsemicolon := hother ';' (by decide)
      have hhash := hother '#' (by decide)
      have hequals := hother '=' (by decide)
      have hopen := hother '[' (by decide)
      have hclose := hother ']' (by decide)
      simp [hsemicolon, hhash, hequals, hopen, hclose]
    unfold isWordChar
    rw [hspace, hspecial, decide_eq_false hmark]
    rfl
  · have hall : ∀ d ∈ "_./:-".toList, isWordChar d = true := by decide
    exact hall c hc

/-- Letters, digits and some signs make a word. -/
theorem IsWord.of_ascii {w : PyText} (hne : w ≠ [])
    (h : ∀ c ∈ w, c.isAlphanum = true ∨ c ∈ "_./:-".toList) : IsWord w :=
  ⟨hne, fun c hc => isWordChar_of_ascii (h c hc)⟩

/-- `name` is a word. -/
theorem isWord_name : IsWord "name".toList :=
  IsWord.of_ascii (by decide) (by decide)

/-- A text without blanks is not stripped of anything. -/
theorem strip_of_noSpace {s : PyText} (hne : s ≠ [])
    (h : ∀ c ∈ s, isSpace c = false) :
    strip s = s := by
  obtain ⟨x, t, rfl⟩ := List.exists_cons_of_ne_nil hne
  exact strip_of_ends rfl (List.getLast?_eq_some_getLast hne)
    (h x List.mem_cons_self)
    (h _ (List.getLast_mem hne))

section

variable {w : PyText} (hw : IsWord w)

include hw

/-- A word has no character that is none of words. -/
theorem IsWord.notMem {c : Char} (hc : isWordChar c = false) : c ∉ w := by
  intro hmem
  rw [hw.chars c hmem] at hc
  cases hc

/-- A word has no blank. -/
theorem IsWord.space {c : Char} (hc : c ∈ w) : isSpace c = false := by
  have hchar := hw.chars c hc
  unfold isWordChar at hchar
  simp only [Bool.and_eq_true, Bool.not_eq_true'] at hchar
  exact hchar.1.1

/-- A word is plain to the shell. -/
theorem IsWord.plain {c : Char} (hc : c ∈ w) : Shlex.isPlain c = true := by
  have hspace := hw.space hc
  have hchar := hw.chars c hc
  unfold isWordChar at hchar
  simp only [Bool.and_eq_true, Bool.not_eq_true'] at hchar
  have hblank : Shlex.isBlank c = false := by
    by_contra hblank
    have hsome : isSpace c = true := by
      simp only [Shlex.isBlank, Bool.not_eq_false, Bool.or_eq_true,
        beq_iff_eq] at hblank
      rcases hblank with ((rfl | rfl) | rfl) | rfl
      all_goals decide
    rw [hspace] at hsome
    cases hsome
  unfold Shlex.isPlain
  rw [hblank, hchar.1.2]
  rfl

/-- A word is not stripped of anything. -/
theorem IsWord.strip_eq : strip w = w :=
  strip_of_noSpace hw.nonempty fun _ hc => hw.space hc

end

/-! ### Rendering -/

/-- `k=v` -/
def optionLine (o : PyText × PyText) : PyText := o.1 ++ '=' :: o.2

/-- `--k=v` -/
def optionToken (o : PyText × PyText) : PyText := "--".toList ++ optionLine o

/-- `--name=a --k=v …` -/
def sectionTokens (s : PyText × List (PyText × PyText)) : List PyText :=
  optionToken ("name".toList, s.1) :: s.2.map optionToken

/-- `[a]` and the lines of its options. -/
def sectionLines (s : PyText × List (PyText × PyText)) : List PyText :=
  ('[' :: (s.1 ++ [']'])) :: s.2.map optionLine

/-- `fio --g=v … --name=a --k=v … --name=b …` -/
def cmdlineOf (globals : List (PyText × PyText))
    (sections : List (PyText × List (PyText × PyText))) : PyText :=
  join [' '] ("fio".toList ::
    (globals.map optionToken ++ sections.flatMap sectionTokens))

/-- The job file with the same options. -/
def jobFileOf (globals : List (PyText × PyText))
    (sections : List (PyText × List (PyText × PyText))) : PyText :=
  ("[global]".toList ::
    (globals.map optionLine ++ sections.flatMap sectionLines)).flatMap
    (fun line => line ++ ['\n'])

/-- The globals overridden by the options of the job. -/
def jobOf (globals : FioOpts) (s : PyText × List (PyText × PyText)) : FioOpts :=
  (globals.insert "name".toList s.1).insertAll s.2

/-- What the last assignment to a key assigns. -/
def lastValue (opts : List (PyText × PyText)) (key : PyText) : Option PyText :=
  (opts.reverse.find? (fun o => decide (o.1 = key))).map Prod.snd

/-- **Inheritance.**  The last assignment wins, that of the job before the
globals. -/
theorem get?_jobOf (globals : List (PyText × PyText))
    (s : PyText × List (PyText × PyText))
    (key : PyText) : (jobOf (OrderedDict.empty.insertAll globals) s).get? key
      = (lastValue s.2 key).or
          (if key = "name".toList then some s.1
            else lastValue globals key) := by
  unfold jobOf lastValue
  rw [OrderedDict.get?_insertAll, OrderedDict.get?_insertAll_empty,
    OrderedDict.get?_insert,
    OrderedDict.get?_insertAll_empty]

/-! ### The command line -/

section

variable {o : PyText × PyText}

/-- An option line is cut at its first equals sign. -/
theorem takeWhile_optionLine (h : IsWord o.1) :
    (optionLine o).takeWhile (· != '=') = o.1 ∧
      (optionLine o).dropWhile (· != '=') = '=' :: o.2 := by
  have hkey : ∀ c ∈ o.1, (c != '=') = true := by
    intro c hc
    have hno := h.notMem (c := '=') (by decide)
    exact bne_iff_ne.mpr fun heq => hno (heq ▸ hc)
  unfold optionLine
  rw [List.takeWhile_append_of_pos hkey, List.dropWhile_append_of_pos hkey]
  simp

/-- The token of an option assigns it. -/
theorem token_optionToken (hkey : IsWord o.1) (hdash : o.1.head? ≠ some '-')
    (parsed : FioCmdline) : parsed.token (optionToken o)
      = if o.1 = "name".toList then
          { parsed with jobs := parsed.jobs ++ [parsed.globals.insert o.1 o.2] }
        else parsed.assign o.1 o.2 := by
  obtain ⟨htake, hdrop⟩ := takeWhile_optionLine hkey
  have hbody : (optionToken o).dropWhile (· == '-') = optionLine o := by
    obtain ⟨x, t, hx⟩ := List.exists_cons_of_ne_nil hkey.nonempty
    rw [hx] at hdash
    have hne : x ≠ '-' := by simpa using hdash
    unfold optionToken optionLine
    rw [hx]
    simp [hne]
  have hsplit : splitOption (optionLine o) = (o.1, o.2) := by
    have hmem : '=' ∈ optionLine o := by simp [optionLine]
    unfold splitOption
    rw [if_pos hmem, htake, hdrop]
    rfl
  have hhead : ¬ (optionToken o).head? ≠ some '-' := by simp [optionToken]
  unfold FioCmdline.token
  rw [if_neg hhead, hbody, hsplit]
  dsimp only
  rw [hkey.strip_eq]

/-- The token of an option assigns it. -/
theorem token_option (h : IsOption o) (parsed : FioCmdline) :
    parsed.token (optionToken o) = parsed.assign o.1 o.2 := by
  rw [token_optionToken h.key h.undashed, if_neg h.unnamed]

end

/-- Before the first job the options are those of all jobs. -/
theorem foldl_token_globals {opts : List (PyText × PyText)}
    (h : ∀ o ∈ opts, IsOption o)
    {parsed : FioCmdline} (hjobs : parsed.jobs = []) :
    (opts.map optionToken).foldl FioCmdline.token parsed
      = { parsed with globals := parsed.globals.insertAll opts } := by
  induction opts generalizing parsed with
  | nil => rfl
  | cons o opts ih =>
      obtain ⟨ho, hopts⟩ := List.forall_mem_cons.mp h
      have hassign :
          parsed.assign o.1 o.2 =
          { parsed with globals := parsed.globals.insert o.1 o.2 } := by
        unfold FioCmdline.assign
        rw [hjobs]
        rfl
      rw [List.map_cons, List.foldl_cons, token_option ho, hassign]
      exact ih hopts hjobs

/-- Behind a name they are those of the last job. -/
theorem foldl_token_options {opts : List (PyText × PyText)}
    (h : ∀ o ∈ opts, IsOption o)
    (parsed : FioCmdline) (cur : FioOpts) (jobs : List FioOpts) :
    (opts.map optionToken).foldl FioCmdline.token { parsed with jobs := jobs ++
      [cur] }
      = { parsed with jobs := jobs ++ [cur.insertAll opts] } := by
  induction opts generalizing cur with
  | nil => rfl
  | cons o opts ih =>
      obtain ⟨ho, hopts⟩ := List.forall_mem_cons.mp h
      have hassign :
          FioCmdline.assign { parsed with jobs := jobs ++ [cur] } o.1 o.2
          = { parsed with jobs := jobs ++ [cur.insert o.1 o.2] } := by
        simp [FioCmdline.assign]
      rw [List.map_cons, List.foldl_cons, token_option ho, hassign]
      exact ih hopts _

section

variable [UnicodeTextDb]

/-- The tokens of some sections make a job of each. -/
theorem foldl_token_sections {sections : List (PyText × List (PyText × PyText))}
    (h : ∀ s ∈ sections, IsSection s) (parsed : FioCmdline) :
    ((sections.flatMap sectionTokens).foldl FioCmdline.token parsed).jobs
      = parsed.jobs ++ sections.map (jobOf parsed.globals) := by
  induction sections generalizing parsed with
  | nil => exact (List.append_nil _).symm
  | cons s sections ih =>
      obtain ⟨hs, hrest⟩ := List.forall_mem_cons.mp h
      have hname : parsed.token (optionToken ("name".toList, s.1))
          = { parsed with jobs := parsed.jobs ++
            [parsed.globals.insert "name".toList s.1] } := by
        rw [token_optionToken isWord_name (by simp), if_pos rfl]
      have hsection : (sectionTokens s).foldl FioCmdline.token parsed
          = { parsed with jobs := parsed.jobs ++
            [jobOf parsed.globals s] } := by
        unfold sectionTokens
        rw [List.foldl_cons, hname]
        exact foldl_token_options hs.options parsed _ parsed.jobs
      rw [List.flatMap_cons, List.foldl_append, hsection, ih hrest,
        List.map_cons]
      simp

/-- **The command line** gives the globals overridden by the options of each
job. -/
theorem jobs_parseFioCmdline {globals : List (PyText × PyText)}
    {sections : List (PyText × List (PyText × PyText))}
    (hglobals : ∀ o ∈ globals, IsOption o)
    (hsections : ∀ s ∈ sections, IsSection s) :
    (parseFioCmdline (cmdlineOf globals sections)).jobs
      = sections.map (jobOf (OrderedDict.empty.insertAll globals)) := by
  have hword : ∀ o : PyText × PyText, IsWord o.1 → IsWord o.2 →
      ∀ c ∈ optionToken o, Shlex.isPlain c = true := by
    intro o hkey hvalue c hc
    simp only [optionToken, optionLine, List.mem_append, List.mem_cons] at hc
    rcases hc with hc | hc | rfl | hc
    · have hall : ∀ d ∈ "--".toList, Shlex.isPlain d = true := by decide
      exact hall c hc
    · exact hkey.plain hc
    · decide
    · exact hvalue.plain hc
  have htoken :
      ∀ tok ∈ "fio".toList :: (globals.map optionToken ++ sections.flatMap sectionTokens),
      tok ≠ [] ∧ ∀ c ∈ tok, Shlex.isPlain c = true := by
    intro tok htok
    rcases List.mem_cons.mp htok with rfl | htok
    · exact ⟨by decide, by decide⟩
    · have hoption : ∃ o : PyText × PyText, IsWord o.1 ∧ IsWord o.2 ∧
          tok = optionToken o := by
        rcases List.mem_append.mp htok with htok | htok
        · obtain ⟨o, ho, rfl⟩ := List.mem_map.mp htok
          exact ⟨o, (hglobals o ho).key, (hglobals o ho).value, rfl⟩
        · obtain ⟨s, hs, htok⟩ := List.mem_flatMap.mp htok
          rcases List.mem_cons.mp htok with rfl | htok
          · exact ⟨_, isWord_name, (hsections s hs).name, rfl⟩
          · obtain ⟨o, ho, rfl⟩ := List.mem_map.mp htok
            have hoption := (hsections s hs).options o ho
            exact ⟨o, hoption.key, hoption.value, rfl⟩
      obtain ⟨o, hkey, hvalue, rfl⟩ := hoption
      exact ⟨by simp [optionToken], hword o hkey hvalue⟩
  have htokens : cmdlineTokens (cmdlineOf globals sections)
      = "fio".toList ::
        (globals.map optionToken ++ sections.flatMap sectionTokens) :=
    (cmdlineTokens_join_iff fun tok htok => (htoken tok htok).1).mpr
      (Or.inl fun tok htok => (htoken tok htok).2)
  unfold parseFioCmdline
  rw [htokens]
  unfold fioOptions
  rw [List.drop_one, List.tail_cons, List.foldl_append,
    foldl_token_globals hglobals rfl,
    foldl_token_sections hsections]
  rfl

/-! ### The job file -/

omit [UnicodeTextDb] in
/-- A line without comment signs stays as it is. -/
theorem stripComment_eq {line : PyText} (hne : line ≠ [])
    (h : ∀ c ∈ line, isSpace c = false ∧ c ≠ ';' ∧ c ≠ '#') :
    stripComment line = line := by
  have hsemicolon : line.takeWhile (· != ';') = line :=
    List.takeWhile_eq_self_iff.mpr fun c hc => bne_iff_ne.mpr (h c hc).2.1
  have hhash : line.takeWhile (· != '#') = line :=
    List.takeWhile_eq_self_iff.mpr fun c hc => bne_iff_ne.mpr (h c hc).2.2
  unfold stripComment
  rw [hsemicolon, hhash]
  exact strip_of_noSpace hne fun c hc => (h c hc).1

omit [UnicodeTextDb] in
/-- The characters of a word end no line and begin no comment. -/
theorem IsWord.inLine {w : PyText} (hw : IsWord w) {c : Char} (hc : c ∈ w) :
    isSpace c = false ∧ c ≠ ';' ∧ c ≠ '#' := by
  refine ⟨hw.space hc, ?_, ?_⟩
  · intro heq
    exact hw.notMem (by decide) (heq ▸ hc)
  · intro heq
    exact hw.notMem (by decide) (heq ▸ hc)

omit [UnicodeTextDb] in
/-- An option line has no blanks and no comment signs. -/
theorem inLine_optionLine {o : PyText × PyText} (h : IsOption o) :
    ∀ c ∈ optionLine o, isSpace c = false ∧ c ≠ ';' ∧ c ≠ '#' := by
  intro c hc
  simp only [optionLine, List.mem_append, List.mem_cons] at hc
  rcases hc with hc | rfl | hc
  · exact h.key.inLine hc
  · decide
  · exact h.value.inLine hc

omit [UnicodeTextDb] in
/-- Nor has the header of a section. -/
theorem inLine_header {w : PyText} (hw : IsWord w) :
    ∀ c ∈ '[' :: (w ++ [']']), isSpace c = false ∧ c ≠ ';' ∧ c ≠ '#' := by
  intro c hc
  simp only [List.mem_append, List.mem_cons, List.not_mem_nil, or_false] at hc
  rcases hc with rfl | hc | rfl
  · decide
  · exact hw.inLine hc
  · decide

/-- The line of an option assigns it. -/
theorem line_optionLine {o : PyText × PyText} (h : IsOption o)
    (file : JobFile) :
    file.line (optionLine o) = file.assign o.1 o.2 := by
  obtain ⟨htake, hdrop⟩ := takeWhile_optionLine h.key
  have hne : optionLine o ≠ [] := by simp [optionLine]
  have hhead : (optionLine o).head? ≠ some '[' := by
    obtain ⟨x, t, hx⟩ := List.exists_cons_of_ne_nil h.key.nonempty
    have hno := h.key.notMem (c := '[') (by decide)
    rw [hx] at hno
    unfold optionLine
    rw [hx]
    intro heq
    exact hno (List.mem_cons.mpr (Or.inl (Option.some.inj heq).symm))
  unfold JobFile.line
  dsimp only
  rw [stripComment_eq hne (inLine_optionLine h), if_neg hne,
    if_neg (fun hboth => hhead hboth.1),
    htake, hdrop, h.key.strip_eq, List.drop_one, List.tail_cons,
    h.value.strip_eq]

/-- A header opens a section, or the global one. -/
theorem line_header {w : PyText} (hw : IsWord w) (file : JobFile) :
    file.line ('[' :: (w ++ [']'])) = if UnicodeTextDb.lower w = "global".toList
      then
        { file with inJob := false }
      else { file with
        jobs := file.jobs ++ [file.globalOpts.insert "name".toList w]
        inJob := true } := by
  have hlast : ('[' :: (w ++ [']'])).getLast? = some ']' := by
    rw [← List.cons_append, List.getLast?_append]
    rfl
  unfold JobFile.line
  dsimp only
  rw [stripComment_eq (List.cons_ne_nil _ _) (inLine_header hw),
    if_neg (List.cons_ne_nil _ _),
    if_pos ⟨rfl, hlast⟩, List.drop_one, List.tail_cons, List.dropLast_concat,
    hw.strip_eq]

omit [UnicodeTextDb] in
/-- An option goes into the section that is open. -/
theorem assign_of_word {o : PyText × PyText} (h : IsWord o.2) (file : JobFile) :
    file.assign o.1 o.2 = match file.inJob, file.jobs.getLast? with
      | true, some cur =>
          { file with jobs := file.jobs.dropLast ++ [cur.insert o.1 o.2] }
      | _, _ => { file with globalOpts := file.globalOpts.insert o.1 o.2 } := by
  have hval : (if o.2 = [] then "1".toList else o.2) = o.2 := if_neg h.nonempty
  exact congrArg (fun val => match file.inJob, file.jobs.getLast? with
    | true, some cur =>
        { file with jobs := file.jobs.dropLast ++ [cur.insert o.1 val] }
    | _, _ => { file with globalOpts := file.globalOpts.insert o.1 val }) hval

/-- The lines of the global section make its options. -/
theorem foldl_line_globals {opts : List (PyText × PyText)}
    (h : ∀ o ∈ opts, IsOption o)
    {file : JobFile} (hjob : file.inJob = false) :
    (opts.map optionLine).foldl JobFile.line file
      = { file with globalOpts := file.globalOpts.insertAll opts } := by
  induction opts generalizing file with
  | nil => rfl
  | cons o opts ih =>
      obtain ⟨ho, hopts⟩ := List.forall_mem_cons.mp h
      have hassign : file.assign o.1 o.2
          = { file with globalOpts := file.globalOpts.insert o.1 o.2 } := by
        rw [assign_of_word ho.value, hjob]
      rw [List.map_cons, List.foldl_cons, line_optionLine ho, hassign]
      exact ih hopts hjob

/-- The lines of a section make its options. -/
theorem foldl_line_options {opts : List (PyText × PyText)}
    (h : ∀ o ∈ opts, IsOption o)
    (file : JobFile) (cur : FioOpts) (jobs : List FioOpts) :
    (opts.map optionLine).foldl JobFile.line { file with jobs := jobs ++ [cur], inJob := true }
      = { file with jobs := jobs ++ [cur.insertAll opts], inJob := true } := by
  induction opts generalizing cur with
  | nil => rfl
  | cons o opts ih =>
      obtain ⟨ho, hopts⟩ := List.forall_mem_cons.mp h
      have hassign : JobFile.assign { file with jobs := jobs ++ [cur], inJob := true } o.1 o.2
          = { file with jobs := jobs ++ [cur.insert o.1 o.2], inJob := true } := by
        rw [assign_of_word ho.value]
        simp
      rw [List.map_cons, List.foldl_cons, line_optionLine ho, hassign]
      exact ih hopts _

/-- The lines of some sections make a job of each. -/
theorem foldl_line_sections {sections : List (PyText × List (PyText × PyText))}
    (h : ∀ s ∈ sections, IsSection s) (file : JobFile) :
    ((sections.flatMap sectionLines).foldl JobFile.line file).jobs
      = file.jobs ++ sections.map (jobOf file.globalOpts) := by
  induction sections generalizing file with
  | nil => exact (List.append_nil _).symm
  | cons s sections ih =>
      obtain ⟨hs, hrest⟩ := List.forall_mem_cons.mp h
      have hsection : (sectionLines s).foldl JobFile.line file
          = { file with jobs := file.jobs ++ [jobOf file.globalOpts s], inJob := true } := by
        unfold sectionLines
        rw [List.foldl_cons, line_header hs.name, if_neg hs.ofJob]
        exact foldl_line_options hs.options file _ file.jobs
      rw [List.flatMap_cons, List.foldl_append, hsection, ih hrest,
        List.map_cons]
      simp

/-- **The job file** gives the same. -/
theorem parseJobFile_jobFileOf {globals : List (PyText × PyText)}
    {sections : List (PyText × List (PyText × PyText))}
    (hglobals : ∀ o ∈ globals, IsOption o)
    (hsections : ∀ s ∈ sections, IsSection s) :
    parseJobFile (jobFileOf globals sections)
      = sections.map (jobOf (OrderedDict.empty.insertAll globals)) := by
  have hglobal : IsWord "global".toList :=
    IsWord.of_ascii (by decide) (by decide)
  have hline :
      ∀ line ∈ "[global]".toList :: (globals.map optionLine ++ sections.flatMap sectionLines),
      ∀ c ∈ line, isSpace c = false := by
    intro line hline c hc
    rcases List.mem_cons.mp hline with rfl | hline
    · exact (inLine_header hglobal c hc).1
    · rcases List.mem_append.mp hline with hline | hline
      · obtain ⟨o, ho, rfl⟩ := List.mem_map.mp hline
        exact (inLine_optionLine (hglobals o ho) c hc).1
      · obtain ⟨s, hs, hline⟩ := List.mem_flatMap.mp hline
        rcases List.mem_cons.mp hline with rfl | hline
        · exact (inLine_header (hsections s hs).name c hc).1
        · obtain ⟨o, ho, rfl⟩ := List.mem_map.mp hline
          exact (inLine_optionLine ((hsections s hs).options o ho) c hc).1
  have hboundary : ∀ c : Char, isSpace c = false →
      isLineBoundary c = false := by
    intro c hc
    unfold isSpace at hc
    unfold isLineBoundary
    simp only [Bool.or_eq_false_iff, Bool.and_eq_false_iff, beq_eq_false_iff_ne,
      decide_eq_false_iff_not] at hc ⊢
    omega
  have hcr : '\r' ∉ jobFileOf globals sections := by
    intro hmem
    obtain ⟨line, hmemLine, hc⟩ := List.mem_flatMap.mp hmem
    rcases List.mem_append.mp hc with hc | hc
    · have hspace := hline line hmemLine _ hc
      revert hspace
      decide
    · revert hc
      decide
  have hlines : splitlines (jobFileOf globals sections)
      = "[global]".toList ::
        (globals.map optionLine ++ sections.flatMap sectionLines) := by
    have hsplit :=
      splitlines_lines (fun line hl c hc => hboundary c (hline line hl c hc)) []
    rw [List.append_nil] at hsplit
    exact hsplit.trans (List.append_nil _)
  have hheader : JobFile.line {} "[global]".toList = {} := by
    have hlower : UnicodeTextDb.lower "global".toList = "global".toList :=
      UnicodeTextDb.lower_ascii _ (by decide)
    exact (line_header hglobal {}).trans (if_pos hlower)
  unfold parseJobFile
  rw [universalNewlines_of_no_cr hcr, hlines, List.foldl_cons, hheader,
    List.foldl_append,
    foldl_line_globals hglobals rfl, foldl_line_sections hsections]
  rfl

/-- **One workload, written twice.**  For all global options and all sections
the command line and the job file give the same list of dictionaries, and so the
same expectations.  Each job has what the last assignment says, its own before
the globals, and what follows a job does not change it. -/
theorem cmdline_eq_jobFile (globals : List (PyText × PyText))
    (sections : List (PyText × List (PyText × PyText)))
    (hglobals : ∀ o ∈ globals, IsOption o)
    (hsections : ∀ s ∈ sections, IsSection s) :
    let jobs := (parseFioCmdline (cmdlineOf globals sections)).jobs
    let fileJobs := parseJobFile (jobFileOf globals sections)
    jobs = fileJobs ∧ jobs.map specFromOpts = fileJobs.map specFromOpts ∧
    List.Forall₂ (fun s job => ∀ key, job.get? key = (lastValue s.2 key).or
      (if key = "name".toList then some s.1
        else lastValue globals key)) sections jobs ∧
    ∀ n, (parseFioCmdline (cmdlineOf globals (sections.take n))).jobs =
      jobs.take n ∧
      parseJobFile (jobFileOf globals (sections.take n)) = fileJobs.take n := by
  intro jobs fileJobs
  have hjobs :
      jobs = sections.map (jobOf (OrderedDict.empty.insertAll globals)) :=
    jobs_parseFioCmdline hglobals hsections
  have hfile :
      fileJobs = sections.map (jobOf (OrderedDict.empty.insertAll globals)) :=
    parseJobFile_jobFileOf hglobals hsections
  have hsame : jobs = fileJobs := hjobs.trans hfile.symm
  refine ⟨hsame, congrArg _ hsame, ?_, ?_⟩
  · rw [hjobs, List.forall₂_map_right_iff]
    exact List.forall₂_same.mpr fun s _ => get?_jobOf globals s
  · intro n
    have htake : ∀ s ∈ sections.take n, IsSection s := fun s hs =>
      hsections s (List.mem_of_mem_take hs)
    rw [jobs_parseFioCmdline hglobals htake,
      parseJobFile_jobFileOf hglobals htake, hjobs, hfile,
      List.map_take]
    exact ⟨rfl, rfl⟩

end

/-- An option that is set twice, and one that a job overrides. -/
def plainGlobals : List (PyText × PyText) :=
  [("bs".toList, "4k".toList), ("rw".toList, "read".toList),
    ("bs".toList, "8k".toList)]

/-- A sample of two sections. -/
def plainSections : List (PyText × List (PyText × PyText)) :=
  [("a".toList, [("rw".toList, "write".toList)]),
    ("job.b".toList, [("size".toList, "-1".toList)])]

theorem cmdline_eq_jobFile_plain :
    (parseFioCmdline
      "fio --bs=4k --rw=read --bs=8k --name=a --rw=write --name=job.b --size=-1".toList).jobs
      = @parseJobFile UnicodeTextDb.ascii
          "[global]\nbs=4k\nrw=read\nbs=8k\n[a]\nrw=write\n[job.b]\nsize=-1\n".toList :=
  (@cmdline_eq_jobFile UnicodeTextDb.ascii plainGlobals plainSections
    (by decide) (by decide)).1

end Telemetryd
