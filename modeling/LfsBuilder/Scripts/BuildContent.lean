import LfsBuilder.Scripts.FixLfsBuilder

/-!
# The build content of the fixed script

What the edits of `fix-lfs-builder.sh` keep of a build script in the layout of the
repository: the arrays of packages and tools, and the lines that build a package.

* `editFrom_append`: the edits go through the script line by line, with the state of
  the range for `util-linux`;
* `exists_mem_editLine_iff`: which lines they keep;
* `contentKept_iff`: for which scripts nothing is lost.
-/

namespace LfsBuilder.FixLfsBuilder

open Text Sed

/-! ## The edits line by line -/

/-- The edits before the one of the range. -/
def prepare (ls : List Line) : List Line :=
  fixTools (substitute rename (fixCorePackages (fixPackages ls)))

/-- The edits, from a line where the range is active, or is not. -/
def editFrom (active : Bool) (ls : List Line) : List Line :=
  createSysconfig (range (contains utilLinux) isInstall utilLinuxCommands active (prepare ls))

/-- Whether the range is active after lines of the script. -/
def activeFromTexts (active : Bool) (texts : List Str) : Bool :=
  texts.foldl (fun active text => activeAfter (contains utilLinux) isInstall active (rename text))
    active

/-- What the edits write for a line. -/
def editLine (active : Bool) (text : Str) : List Line := editFrom active [⟨text, true⟩]

/-- The lines that are appended after a line. -/
def appended (text : Str) : List Str :=
  (if contains utilLinuxTarball (rename text) then coreTools else []) ++
    (if contains utilLinuxUrl text then corePackages else []) ++
    (if contains gccUrl text then gccDependencies else [])

/-- All lines that are appended somewhere. -/
def additions : List Str := coreTools ++ corePackages ++ gccDependencies

/-- The lines that the edits write, but for those of the script. -/
def inserted : List Str :=
  additions ++ utilLinuxBuild ++ ["        mkdir -p \"$LFS/etc/sysconfig\"".toList]

variable {active : Bool} {text : Str} {texts : List Str} {ls ls' : List Line}

theorem editLfsBuild_eq_editFrom (ls : List Line) : editLfsBuild ls = editFrom false ls := rfl

theorem prepare_append (ls ls' : List Line) : prepare (ls ++ ls') = prepare ls ++ prepare ls' := by
  simp only [prepare, fixTools, fixCorePackages, fixPackages, appendAfter, substitute,
    List.flatMap_append, List.map_append]

theorem createSysconfig_append (ls ls' : List Line) :
    createSysconfig (ls ++ ls') = createSysconfig ls ++ createSysconfig ls' :=
  List.flatMap_append

theorem mem_additions {t : Str} (h : t ∈ appended text) : t ∈ additions := by
  rw [appended, List.mem_append, List.mem_append] at h
  rw [additions, List.mem_append, List.mem_append]
  refine h.imp (Or.imp ?_ ?_) ?_ <;>
  · intro h
    split at h
    · exact h
    · cases h

theorem mem_inserted {t : Str} (h : t ∈ appended text) : t ∈ inserted :=
  List.mem_append_left _ (List.mem_append_left _ (mem_additions h))

theorem inserted_unchanged : ∀ t ∈ inserted, contains enableGnome t = false ∧
    contains enableNetworking t = false ∧ contains utilLinux t = false := by
  unfold inserted additions coreTools corePackages gccDependencies utilLinuxBuild enableGnome
    enableNetworking utilLinux
  repeat rw [String.toList_ofList]
  decide +kernel

theorem additions_no_build : ∀ t ∈ additions, isBuildLine t = false := by
  unfold additions coreTools corePackages gccDependencies isBuildLine isInstall
  repeat rw [String.toList_ofList]
  decide +kernel

/-- The edits before the range leave what they append as it is. -/
theorem additions_unchanged : ∀ t ∈ additions, rename t = t ∧ contains utilLinuxTarball t = false ∧
    contains utilLinuxUrl t = false := by
  intro t ht
  obtain ⟨hgnome, hnetworking, hutil⟩ :=
    inserted_unchanged t (List.mem_append_left _ (List.mem_append_left _ ht))
  exact ⟨rename_eq_self_iff.2 ⟨hgnome, hnetworking⟩, not_contains_of_utilLinux hutil⟩

theorem utilLinuxCommands_eq_self {l : Line} (hutil : contains utilLinux l.text = false)
    (hbuild : isBuildLine l.text = false) : utilLinuxCommands l = [l] := by
  rw [utilLinuxCommands, hutil, hbuild]
  rfl

theorem prepare_singleton (text : Str) :
    prepare [⟨text, true⟩] = ⟨rename text, true⟩ :: written (appended text) := by
  have hall {texts : List Str} (h : ∀ t ∈ texts, t ∈ additions) :
      fixCorePackages (written texts) = written texts ∧
        substitute rename (written texts) = written texts ∧
        fixTools (written texts) = written texts := by
    refine ⟨appendAfter_eq_self ?_, substitute_eq_self_iff.2 ?_, appendAfter_eq_self ?_⟩ <;>
      rw [forall_mem_written]
    · exact fun t ht => (additions_unchanged t (h t ht)).2.2
    · exact fun t ht => (additions_unchanged t (h t ht)).1
    · exact fun t ht => (additions_unchanged t (h t ht)).2.1
  let core := if contains utilLinuxUrl text then corePackages else []
  let gcc := if contains gccUrl text then gccDependencies else []
  have hgcc : ∀ t ∈ gcc, t ∈ additions := fun t ht =>
    @mem_additions text t (List.mem_append_right _ ht)
  have hboth : ∀ t ∈ core ++ gcc, t ∈ additions := fun t ht =>
    @mem_additions text t (by
      rw [appended, List.append_assoc]
      exact List.mem_append_right _ ht)
  have hpackages : fixPackages [⟨text, true⟩] = ⟨text, true⟩ :: written gcc :=
    (appendAfter_cons _ _ text []).trans (List.append_nil _)
  have hcore : fixCorePackages (⟨text, true⟩ :: written gcc) =
      ⟨text, true⟩ :: written (core ++ gcc) := by
    rw [fixCorePackages, appendAfter_cons, ← fixCorePackages, (hall hgcc).1, written_append]
    rfl
  have hrename : substitute rename (⟨text, true⟩ :: written (core ++ gcc)) =
      ⟨rename text, true⟩ :: written (core ++ gcc) :=
    congrArg (_ :: ·) (hall hboth).2.1
  rw [prepare, hpackages, hcore, hrename, fixTools, appendAfter_cons, ← fixTools, (hall hboth).2.2,
    List.cons_append, ← written_append, appended, List.append_assoc]

/-- Nothing that is appended matters to the range. -/
theorem quiet_appended (text : Str) : ∀ l ∈ written (appended text),
    contains utilLinux l.text = false ∧ isInstall l.text = false ∧ utilLinuxCommands l = [l] := by
  rw [forall_mem_written]
  intro t ht
  have hbuild := additions_no_build t (mem_additions ht)
  obtain ⟨-, -, hutil⟩ := inserted_unchanged t (mem_inserted ht)
  exact ⟨hutil, (Bool.or_eq_false_iff.1 hbuild).2, utilLinuxCommands_eq_self hutil hbuild⟩

theorem editFrom_cons (active : Bool) (text : Str) (ls : List Line) :
    editFrom active (⟨text, true⟩ :: ls) = editLine active text ++
      editFrom (activeAfter (contains utilLinux) isInstall active (rename text)) ls := by
  have hactive : activeFrom (contains utilLinux) isInstall active (prepare [⟨text, true⟩]) =
      activeAfter (contains utilLinux) isInstall active (rename text) := by
    rw [prepare_singleton, activeFrom, List.foldl_cons]
    exact (range_quiet (quiet_appended text) _).2
  rw [editLine, editFrom, ← List.singleton_append, prepare_append, range_append,
    createSysconfig_append, hactive]
  rfl

/-- The edits go through the script from line to line. -/
theorem editFrom_append (active : Bool) (texts texts' : List Str) :
    editFrom active (written (texts ++ texts')) = editFrom active (written texts) ++
      editFrom (activeFromTexts active texts) (written texts') := by
  induction texts generalizing active with
  | nil => rfl
  | cons text texts ih =>
    have hcons (texts : List Str) : written (text :: texts) = ⟨text, true⟩ :: written texts := rfl
    rw [List.cons_append, hcons, hcons, editFrom_cons, editFrom_cons, ih, List.append_assoc]
    rfl

/-- What the edits write for a line: the line, what it is replaced by in a range, or
    nothing, and the lines that are appended. -/
theorem editLine_eq (active : Bool) (text : Str) : editLine active text =
    createSysconfig (if active || contains utilLinux (rename text) then
      utilLinuxCommands ⟨rename text, true⟩ else [⟨rename text, true⟩]) ++
      written (appended text) := by
  have hcomment : ∀ t ∈ additions, contains networkComment t = false := by
    unfold additions coreTools corePackages gccDependencies networkComment
    repeat rw [String.toList_ofList]
    decide +kernel
  have hsysconfig : createSysconfig (written (appended text)) = written (appended text) :=
    insertBefore_eq_self (forall_mem_written.2 fun t ht => hcomment t (mem_additions ht))
  rw [editLine, editFrom, prepare_singleton, range_cons, (range_quiet (quiet_appended text) _).1,
    createSysconfig_append, hsysconfig]

/-! ## The lines that are kept -/

/-- The lines that are written for a line, but for the line itself. -/
theorem forall_mem_editLine {P : Str → Prop} (hinserted : ∀ t ∈ inserted, P t)
    (hself : (active || contains utilLinux (rename text)) = false ∨
      contains utilLinux (rename text) = false ∧ isBuildLine (rename text) = false →
      P (rename text)) : ∀ l ∈ editLine active text, P l.text := by
  rw [editLine_eq, List.forall_mem_append, forall_mem_written]
  refine ⟨forall_mem_insertBefore ?_ ?_, fun t ht => hinserted t (mem_inserted ht)⟩
  · exact List.forall_mem_singleton.2 (hinserted _ (List.mem_append_right _ List.mem_cons_self))
  · split
    · unfold utilLinuxCommands
      split
      · exact forall_mem_written.2 fun t ht =>
          hinserted t (List.mem_append_left _ (List.mem_append_right _ ht))
      · next hutil =>
        split
        · exact fun l hl => by cases hl
        · next hbuild =>
          exact List.forall_mem_singleton.2
            (hself (.inr ⟨Bool.eq_false_of_not_eq_true hutil, Bool.eq_false_of_not_eq_true hbuild⟩))
    · next hactive =>
      exact List.forall_mem_singleton.2 (hself (.inl (Bool.eq_false_of_not_eq_true hactive)))

/-- What is written for a line is the line, with its names replaced, or inserted. -/
theorem mem_editLine {l : Line} (h : l ∈ editLine active text) :
    l.text = rename text ∨ l.text ∈ inserted :=
  forall_mem_editLine (P := fun t => t = rename text ∨ t ∈ inserted) (fun _ ht => .inr ht)
    (fun _ => .inl rfl) l h

/-- A line that the edits neither change nor delete, where the range is active or not. -/
structure Safe (active : Bool) (text : Str) : Prop where
  gnome : contains enableGnome text = false
  networking : contains enableNetworking text = false
  utilLinux : contains FixLfsBuilder.utilLinux text = false
  build : active = true → isBuildLine text = false

theorem Safe.editLine_eq (h : Safe active text) :
    editLine active text = createSysconfig [⟨text, true⟩] ++ written (appended text) := by
  have hrename : rename text = text := rename_eq_self_iff.2 ⟨h.gnome, h.networking⟩
  rw [FixLfsBuilder.editLine_eq, hrename, h.utilLinux, Bool.or_false]
  cases hactive : active with
  | false => rfl
  | true =>
    rw [utilLinuxCommands_eq_self h.utilLinux (h.build hactive), ite_self]

/-- A line is among what the edits write for it exactly if it is safe. -/
theorem exists_mem_editLine_iff :
    (∃ l ∈ editLine active text, l.text = text) ↔ Safe active text := by
  refine ⟨fun h => ?_, fun h => ?_⟩
  · obtain ⟨l, hl, htext⟩ := h
    have hrename : rename text = text := by
      rcases mem_editLine hl with heq | hmem
      · exact heq.symm.trans htext
      · obtain ⟨hgnome, hnetworking, _⟩ := inserted_unchanged _ hmem
        rw [htext] at hgnome hnetworking
        exact rename_eq_self_iff.2 ⟨hgnome, hnetworking⟩
    obtain ⟨hgnome, hnetworking⟩ := rename_eq_self_iff.1 hrename
    have hutil : contains utilLinux text = false := by
      rw [← htext]
      refine forall_mem_editLine (P := fun t => contains utilLinux t = false)
        (fun t ht => (inserted_unchanged t ht).2.2) (fun h => ?_) l hl
      rcases h with h | h
      · exact (Bool.or_eq_false_iff.1 h).2
      · exact h.1
    refine ⟨hgnome, hnetworking, hutil, fun hactive => ?_⟩
    -- In the range, a line that is deleted leaves nothing but what is appended to it.
    by_contra hbuild
    rw [editLine_eq, hrename, hactive, Bool.true_or, if_pos rfl, utilLinuxCommands, hutil,
      if_neg Bool.false_ne_true, if_pos (Bool.eq_true_of_not_eq_false hbuild)] at hl
    obtain ⟨t, ht, rfl⟩ := List.mem_map.1 hl
    exact hbuild (htext ▸ additions_no_build _ (mem_additions ht))
  · refine ⟨⟨text, true⟩, ?_, rfl⟩
    rw [h.editLine_eq]
    refine List.mem_append_left _ ?_
    rw [createSysconfig, insertBefore, List.flatMap_singleton]
    split <;> simp

/-! ## The layout of the script -/

def packagesOpen : Str := "    local packages=(".toList

def toolsOpen : Str := "    local tools=(".toList

def arrayClose : Str := "    )".toList

/-- An entry of an array, on its line. -/
def arrayLine (entry : Str) : Str := List.replicate 8 ' ' ++ ['"'] ++ (entry ++ ['"'])

def isEntryChar (c : Char) : Bool := !isSpace c && c != '"'

def isUrl (entry : Str) : Bool :=
  ["https://".toList, "http://".toList, "ftp://".toList].any (·.isPrefixOf entry) &&
    entry.all isEntryChar

/-- The name of a tarball, without a directory. -/
def isTarball (entry : Str) : Bool :=
  contains ".tar".toList entry && entry.all fun c => isEntryChar c && c != '/'

/-- What a line of the script is for. -/
inductive Tag
  | other
  | entry
  | build (package : Str)
  deriving DecidableEq

/-- A part of the functions of the script, which builds a package or does something else. -/
structure Stage where
  package : Option Str
  lines : List Str

def Stage.tagged (stage : Stage) : List (Tag × Str) :=
  stage.lines.map fun line => (stage.package.elim .other .build, line)

/-- The lines of an array. -/
def taggedArray (opening : Str) (entries : List Str) : List (Tag × Str) :=
  (.other, opening) :: (entries.map fun entry => (.entry, arrayLine entry)) ++
    [(.other, arrayClose)]

/-- A build script in the layout of `lfs-build.sh`. -/
structure Layout where
  head : List Stage
  packages : List Str
  middle : List Stage
  tools : List Str
  rest : List Stage
  packages_url : ∀ u ∈ packages, isUrl u = true
  packages_nodup : packages.Nodup
  tools_tarball : ∀ u ∈ tools, isTarball u = true
  tools_nodup : tools.Nodup
  head_lines : ∀ line ∈ head.flatMap Stage.lines, line ≠ packagesOpen ∧ line ≠ toolsOpen
  middle_lines : ∀ line ∈ middle.flatMap Stage.lines, line ≠ toolsOpen

def Layout.tagged (l : Layout) : List (Tag × Str) :=
  l.head.flatMap Stage.tagged ++ (taggedArray packagesOpen l.packages ++
    (l.middle.flatMap Stage.tagged ++ (taggedArray toolsOpen l.tools ++
      l.rest.flatMap Stage.tagged)))

/-- The lines of the script. -/
def Layout.script (l : Layout) : List Str := l.tagged.map Prod.snd

/-- The lines of the first array with the name. -/
def arrayLines (opening : Str) (texts : List Str) : List Str :=
  ((texts.dropWhile (· ≠ opening)).tail).takeWhile (· ≠ arrayClose)

/-- The entries on a line of an array, without their quotation marks. -/
def lineEntries (line : Str) : List Str := (words line).map (·.filter (· ≠ '"'))

/-- The entries of an array of a script. -/
def entries (opening : Str) (ls : List Line) : List Str :=
  (arrayLines opening (ls.map Line.text)).flatMap lineEntries

/-- Whether a line of the script is one of `make_build` or of `make install`. -/
def isMakeLine (line : Str) : Bool :=
  contains "make_build".toList line || inOrder ["make".toList, "install".toList] line

/-- A line that makes or installs a package other than `util-linux`. -/
def IsBuild (line : Tag × Str) : Prop :=
  ∃ package, line.1 = .build package ∧ package ≠ utilLinux ∧ isMakeLine line.2 = true

/-- Whether a line is in what the edits write for it, after the lines before. -/
def Kept (before : List Str) (text : Str) : Prop :=
  ∃ l ∈ (editLfsBuild (written (before ++ [text]))).drop
    (editLfsBuild (written before)).length, l.text = text

/-- The edits lose no build content. -/
structure ContentKept (l : Layout) : Prop where
  packages : ∀ u ∈ l.packages, (entries packagesOpen (editLfsBuild (written l.script))).count u = 1
  tools : ∀ u ∈ l.tools, (entries toolsOpen (editLfsBuild (written l.script))).count u = 1
  added : ∀ u ∈ entries packagesOpen (editLfsBuild (written l.script)),
    u ∈ l.packages ∨ isUrl u = true
  build : Everywhere (fun before line => IsBuild line → Kept (before.map Prod.snd) line.2) l.tagged

theorem kept_iff {before : List Str} :
    Kept before text ↔ Safe (activeFromTexts false before) text := by
  rw [Kept, editLfsBuild_eq_editFrom, editLfsBuild_eq_editFrom, editFrom_append, List.drop_left]
  exact exists_mem_editLine_iff

/-! ## The arrays of the fixed script -/

theorem rename_of_not_mem (h : '_' ∉ rename text) : rename text = text := by
  have hgnome : '_' ∈ "GNOME_ENABLED".toList := by decide
  have hnetworking : '_' ∈ "NETWORKING_ENABLED".toList := by decide
  rw [rename] at h
  rw [rename_eq_self_iff]
  by_contra hnames
  have hnone : contains enableNetworking
      (replaceAll enableGnome "GNOME_ENABLED".toList text) = false := by
    by_contra hc
    exact h (mem_replaceAll (by decide) (Bool.eq_true_of_not_eq_false hc) hnetworking)
  rw [replaceAll_of_not_contains hnone] at h
  have hnone' : contains enableGnome text = false := by
    by_contra hc
    exact h (mem_replaceAll (by decide) (Bool.eq_true_of_not_eq_false hc) hgnome)
  rw [replaceAll_of_not_contains hnone'] at hnone
  exact hnames ⟨hnone', hnone⟩

theorem mem_rename {c : Char} (h : c ∈ rename text) :
    c ∈ "NETWORKING_ENABLED".toList ∨ c ∈ "GNOME_ENABLED".toList ∨ c ∈ text :=
  (mem_of_mem_replaceFrom h).imp_right mem_of_mem_replaceFrom

theorem rename_arrayLine (entry : Str) : rename (arrayLine entry) = arrayLine (rename entry) := by
  have hreplace {x y : Str} (hx : x ≠ []) (hspace : ' ' ∉ x) (hquote : '"' ∉ x) (entry : Str) :
      replaceAll x y (arrayLine entry) = arrayLine (replaceAll x y entry) := by
    have hleft : ∀ c ∈ List.replicate 8 ' ' ++ ['"'], c ∉ x := by
      rw [List.forall_mem_append, List.forall_mem_singleton]
      exact ⟨fun c hc => List.eq_of_mem_replicate hc ▸ hspace, hquote⟩
    have hright : ∀ c ∈ ['"'], c ∉ x := List.forall_mem_singleton.2 hquote
    exact (replaceAll_append_left hx hleft _).trans
      (congrArg _ (replaceAll_append_right hx hright entry))
  rw [rename, rename, hreplace (by decide) (by decide) (by decide),
    hreplace (by decide) (by decide) (by decide)]

/-- An entry that is one word, without quotation marks. -/
structure IsEntry (entry : Str) : Prop where
  ne_nil : entry ≠ []
  chars : ∀ c ∈ entry, isEntryChar c = true

variable {entry opening : Str} {us : List Str}

theorem isEntry_of_isUrl (h : isUrl entry = true) : IsEntry entry := by
  rw [isUrl, Bool.and_eq_true, List.all_eq_true] at h
  refine ⟨?_, h.2⟩
  rintro rfl
  exact absurd h.1 (by decide)

theorem isEntry_of_isTarball (h : isTarball entry = true) : IsEntry entry := by
  rw [isTarball, Bool.and_eq_true, List.all_eq_true] at h
  refine ⟨?_, fun c hc => (Bool.and_eq_true_iff.1 (h.2 c hc)).1⟩
  rintro rfl
  exact absurd h.1 (by decide)

theorem IsEntry.rename (h : IsEntry entry) : IsEntry (rename entry) := by
  refine ⟨fun hnil => h.ne_nil ?_, fun c hc => ?_⟩
  · have hlen := length_rename entry
    rw [hnil] at hlen
    exact List.eq_nil_of_length_eq_zero (Nat.le_zero.1 hlen)
  · have hnames : ∀ c, c ∈ "NETWORKING_ENABLED".toList ∨ c ∈ "GNOME_ENABLED".toList →
        isEntryChar c = true := by
      simp only [or_imp, forall_and]
      exact ⟨by decide, by decide⟩
    rcases or_assoc.2 (mem_rename hc) with hc | hc
    · exact hnames c hc
    · exact h.chars c hc

theorem IsEntry.lineEntries_arrayLine (h : IsEntry entry) :
    lineEntries (arrayLine entry) = [entry] := by
  have hchars : ∀ c ∈ entry, isSpace c = false ∧ c ≠ '"' := fun c hc => by
    simpa [isEntryChar] using h.chars c hc
  have hsplit : arrayLine entry = List.replicate 8 ' ' ++ '"' :: (entry ++ ['"']) :=
    List.append_assoc _ _ _
  have hword : ∀ c ∈ '"' :: (entry ++ ['"']), isSpace c = false := by
    rw [List.forall_mem_cons, List.forall_mem_append, List.forall_mem_singleton]
    exact ⟨by decide, fun c hc => (hchars c hc).1, by decide⟩
  have hblank : Blank (List.replicate 8 ' ') := fun c hc => by
    rw [List.eq_of_mem_replicate hc]
    decide
  have hfilter : entry.filter (· ≠ '"') = entry :=
    List.filter_eq_self.2 fun c hc => decide_eq_true (hchars c hc).2
  rw [lineEntries, hsplit, words_blank_append hblank,
    words_eq_singleton (List.cons_ne_nil _ _) hword, List.map_singleton,
    List.filter_cons_of_neg (by decide), List.filter_append, hfilter]
  simp

theorem mem_editFrom {l : Line} (h : l ∈ editFrom active (written texts)) :
    ∃ before text after, texts = before ++ text :: after ∧
      l ∈ editLine (activeFromTexts active before) text := by
  induction texts generalizing active with
  | nil => cases h
  | cons text texts ih =>
    have hcons : written (text :: texts) = ⟨text, true⟩ :: written texts := rfl
    rw [hcons, editFrom_cons, List.mem_append] at h
    rcases h with h | h
    · exact ⟨[], text, texts, rfl, h⟩
    · obtain ⟨before, t, after, rfl, hmem⟩ := ih h
      exact ⟨text :: before, t, after, rfl, hmem⟩

/-- The lines around the arrays. -/
def brackets : List Str := [packagesOpen, toolsOpen, arrayClose]

theorem brackets_unchanged : ∀ t ∈ brackets, '_' ∉ t ∧ '"' ∉ t ∧ t ∉ inserted ∧
    editLine false t = [⟨t, true⟩] ∧ editLine true t = [⟨t, true⟩] := by
  unfold brackets packagesOpen toolsOpen arrayClose inserted additions coreTools corePackages
    gccDependencies utilLinuxBuild editLine editFrom createSysconfig networkComment prepare
    utilLinuxCommands isBuildLine isInstall utilLinux rename enableGnome
    enableNetworking fixPackages fixCorePackages fixTools gccUrl utilLinuxUrl utilLinuxTarball
  repeat rw [String.toList_ofList]
  decide +kernel

theorem not_mem_editFrom {t : Str} (ht : t ∈ brackets) (h : t ∉ texts) :
    t ∉ (editFrom active (written texts)).map Line.text := by
  intro hmem
  have hbracket := brackets_unchanged t ht
  obtain ⟨l, hl, htext⟩ := List.mem_map.1 hmem
  obtain ⟨before, text, after, heq, hl⟩ := mem_editFrom hl
  rcases mem_editLine hl with hrename | hinserted
  · rw [htext] at hrename
    have hself := rename_of_not_mem (hrename ▸ hbracket.1)
    rw [heq, hrename, hself] at h
    exact h (List.mem_append_right _ List.mem_cons_self)
  · rw [htext] at hinserted
    exact hbracket.2.2.1 hinserted

theorem arrayLines_append {before lines after : List Str} (hbefore : opening ∉ before)
    (hlines : arrayClose ∉ lines) :
    arrayLines opening (before ++ opening :: (lines ++ arrayClose :: after)) = lines := by
  have hdrop : ∀ t ∈ before, decide (t ≠ opening) = true := fun t ht =>
    decide_eq_true fun h => hbefore (h ▸ ht)
  have htake : ∀ t ∈ lines, decide (t ≠ arrayClose) = true := fun t ht =>
    decide_eq_true fun h => hlines (h ▸ ht)
  rw [arrayLines, List.dropWhile_append_of_pos hdrop, List.dropWhile_cons_of_neg (by simp),
    List.tail_cons, List.takeWhile_append_of_pos htake, List.takeWhile_cons_of_neg (by simp),
    List.append_nil]

/-- The entries of an array after the edits, from a state of the range. -/
def editedEntries (active : Bool) (us : List Str) : List Str :=
  ((editFrom active (written (us.map arrayLine))).map Line.text).flatMap lineEntries

theorem not_mem_map_arrayLine {t : Str} (ht : t ∈ brackets) : t ∉ us.map arrayLine := fun h => by
  obtain ⟨u, _, hu⟩ := List.mem_map.1 h
  refine (brackets_unchanged t ht).2.1 ?_
  rw [← hu]
  exact List.mem_append_right _ (List.mem_append_right _ List.mem_cons_self)

theorem arrayLine_inj {u v : Str} : arrayLine u = arrayLine v ↔ u = v := by
  rw [arrayLine, arrayLine, List.append_right_inj, List.append_left_inj]

/-- The edits leave an array where it is, and what is in it comes from its lines. -/
theorem entries_editLfsBuild {before after : List Str} (hopening : opening ∈ brackets)
    (hbefore : opening ∉ before) :
    entries opening (editLfsBuild
      (written (before ++ opening :: (us.map arrayLine ++ arrayClose :: after)))) =
      editedEntries (activeFromTexts false (before ++ [opening])) us := by
  have hclose : arrayClose ∈ brackets := by simp [brackets]
  have hline {t : Str} (ht : t ∈ brackets) (active : Bool) : editLine active t = [⟨t, true⟩] := by
    cases active with
    | false => exact (brackets_unchanged t ht).2.2.2.1
    | true => exact (brackets_unchanged t ht).2.2.2.2
  have hcons {t : Str} (ht : t ∈ brackets) (active : Bool) (texts : List Str) :
      (editFrom active (written (t :: texts))).map Line.text =
        t :: (editFrom (activeFromTexts active [t]) (written texts)).map Line.text := by
    rw [← List.singleton_append, editFrom_append, List.map_append]
    exact congrArg (fun ls => ls.map Line.text ++ _) (hline ht active)
  have hstate : activeFromTexts false (before ++ [opening]) =
      activeFromTexts (activeFromTexts false before) [opening] := List.foldl_append
  rw [entries, editLfsBuild_eq_editFrom, editFrom_append, List.map_append, hcons hopening,
    editFrom_append, List.map_append, hcons hclose, arrayLines_append
      (not_mem_editFrom hopening hbefore) (not_mem_editFrom hclose (not_mem_map_arrayLine hclose)),
    hstate]
  rfl

theorem safe_of_mem_inserted (h : entry ∈ inserted.flatMap lineEntries)
    (hentry : isUrl entry = true ∨ isTarball entry = true) : Safe active (arrayLine entry) := by
  have hsafe : ∀ e ∈ inserted.flatMap lineEntries, isUrl e || isTarball e →
      contains enableGnome (arrayLine e) = false ∧ contains enableNetworking (arrayLine e) = false ∧
        contains utilLinux (arrayLine e) = false ∧ isBuildLine (arrayLine e) = false := by
    unfold isUrl isTarball inserted additions coreTools corePackages gccDependencies utilLinuxBuild
      enableGnome enableNetworking utilLinux isBuildLine isInstall
    repeat rw [String.toList_ofList]
    decide +kernel
  obtain ⟨hgnome, hnetworking, hutil, hbuild⟩ := hsafe entry h (Bool.or_eq_true_iff.2 hentry)
  exact ⟨hgnome, hnetworking, hutil, fun _ => hbuild⟩

theorem IsEntry.of_mem (hus : ∀ u ∈ us, isUrl u = true ∨ isTarball u = true) (hu : entry ∈ us) :
    IsEntry entry :=
  (hus entry hu).elim isEntry_of_isUrl isEntry_of_isTarball

/-- If all entries are still there, nothing has happened to any of their lines. An entry
    that comes from another line comes from a shorter one, whose entry is lost; so there
    is no shortest entry to which something has happened. -/
theorem everywhere_safe (hus : ∀ u ∈ us, isUrl u = true ∨ isTarball u = true) (hnodup : us.Nodup)
    (h : ∀ u ∈ us, u ∈ editedEntries active us) :
    Everywhere (fun before u => Safe (activeFromTexts active (before.map arrayLine)) (arrayLine u))
      us := by
  intro before u after hsplit
  induction hlen : u.length using Nat.strong_induction_on generalizing before u after with
  | _ n ih =>
    have hu : u ∈ us := by rw [hsplit]; exact List.mem_append_right _ List.mem_cons_self
    obtain ⟨line, hline, hentry⟩ := List.mem_flatMap.1 (h u hu)
    obtain ⟨l, hl, rfl⟩ := List.mem_map.1 hline
    obtain ⟨before', text, after', hmap, hl⟩ := mem_editFrom hl
    obtain ⟨earlier, rest, hus', rfl, hrest⟩ := List.map_eq_append_iff.1 hmap
    obtain ⟨t, later, rfl, rfl, _⟩ := List.map_eq_cons_iff.1 hrest
    have ht : t ∈ us := by rw [hus']; exact List.mem_append_right _ List.mem_cons_self
    rcases mem_editLine hl with hrename | hinserted
    · rw [hrename, rename_arrayLine, (IsEntry.of_mem hus ht).rename.lineEntries_arrayLine,
        List.mem_singleton] at hentry
      rcases eq_or_ne t u with rfl | hne
      · have hnot : t ∉ before ∧ t ∉ after := by
          rw [hsplit, List.nodup_middle, List.nodup_cons, List.mem_append, not_or] at hnodup
          exact hnodup.1
        obtain ⟨rfl, -, -⟩ :=
          (List.append_cons_inj_of_notMem hnot.1 hnot.2).1 (hsplit.symm.trans hus')
        refine exists_mem_editLine_iff.1 ⟨l, hl, ?_⟩
        rw [hrename, rename_arrayLine, ← hentry]
      · -- The entry of `t` is renamed to `u`, but the entries shorter than `u` are safe.
        have hlt : t.length < n := by
          by_contra hle
          rw [← hlen, hentry, not_lt] at hle
          exact hne ((rename_eq_self_iff.2 (not_contains_of_length_rename hle)).symm.trans
            hentry.symm)
        have hsafe := ih t.length hlt earlier t later hus' rfl
        have hself : rename (arrayLine t) = arrayLine t :=
          rename_eq_self_iff.2 ⟨hsafe.gnome, hsafe.networking⟩
        rw [rename_arrayLine, arrayLine_inj, ← hentry] at hself
        exact absurd hself.symm hne
    · exact safe_of_mem_inserted (List.mem_flatMap.2 ⟨_, hinserted, hentry⟩) (hus u hu)

theorem not_contains_networkComment (h : IsEntry entry) :
    contains networkComment (arrayLine entry) = false := by
  rw [contains_eq_false_iff]
  intro hinfix
  have hhead : ∀ c ∈ List.replicate 8 ' ' ++ ['"'], networkComment.head? ≠ some c := by decide
  have hmem := (infix_of_append (by decide) hhead hinfix).mem (by decide : ' ' ∈ networkComment)
  rw [List.mem_append, List.mem_singleton] at hmem
  rcases hmem with hmem | hmem
  · exact absurd (h.chars _ hmem) (by decide)
  · cases hmem

theorem map_text_written (texts : List Str) : (written texts).map Line.text = texts :=
  (List.map_map).trans (List.map_id texts)

/-- The URLs that are appended for an entry. -/
def dependencies (entry : Str) : List Str :=
  if contains gccUrl (arrayLine entry) then gccDependencies.flatMap lineEntries else []

theorem editedEntries_eq (hus : ∀ u ∈ us, IsEntry u)
    (h : Everywhere
      (fun before u => Safe (activeFromTexts active (before.map arrayLine)) (arrayLine u)) us) :
    editedEntries active us = us.flatMap fun u => u :: dependencies u := by
  induction us generalizing active with
  | nil => rfl
  | cons u us ih =>
    rw [List.forall_mem_cons] at hus
    have hsafe : Safe active (arrayLine u) := (everywhere_cons.1 h).1
    have hself : rename (arrayLine u) = arrayLine u :=
      rename_eq_self_iff.2 ⟨hsafe.gnome, hsafe.networking⟩
    obtain ⟨htarball, hurl⟩ := not_contains_of_utilLinux hsafe.utilLinux
    have hcomment : createSysconfig [⟨arrayLine u, true⟩] = [⟨arrayLine u, true⟩] :=
      insertBefore_eq_self (List.forall_mem_singleton.2 (not_contains_networkComment hus.1))
    have happended : appended (arrayLine u) =
        if contains gccUrl (arrayLine u) then gccDependencies else [] := by
      rw [appended, hself, htarball, hurl]
      rfl
    have hline : ((editLine active (arrayLine u)).map Line.text).flatMap lineEntries =
        u :: dependencies u := by
      rw [hsafe.editLine_eq, hcomment, happended, List.map_append, map_text_written,
        List.map_singleton, List.singleton_append, List.flatMap_cons, hus.1.lineEntries_arrayLine,
        dependencies]
      split <;> rfl
    have hcons : editFrom active (written ((u :: us).map arrayLine)) =
        editLine active (arrayLine u) ++
          editFrom (activeFromTexts active [arrayLine u]) (written (us.map arrayLine)) :=
      editFrom_cons active (arrayLine u) (written (us.map arrayLine))
    rw [editedEntries, hcons, List.map_append, List.flatMap_append, hline, List.flatMap_cons]
    exact congrArg (_ ++ ·) (ih hus.2 (everywhere_cons.1 h).2)

theorem count_editedEntries (hus : ∀ u ∈ us, IsEntry u) (hnodup : us.Nodup) (hentry : entry ∈ us)
    (h : Everywhere
      (fun before u => Safe (activeFromTexts active (before.map arrayLine)) (arrayLine u)) us) :
    (editedEntries active us).count entry = 1 ↔ ∀ u ∈ us, entry ∉ dependencies u := by
  have hperm : (us.flatMap fun u => u :: dependencies u).Perm (us ++ us.flatMap dependencies) := by
    have happend := List.map_append_flatMap_perm us id dependencies
    rw [List.map_id] at happend
    exact happend.symm
  rw [editedEntries_eq hus h, hperm.count_eq, List.count_append,
    List.count_eq_one_of_mem hnodup hentry, Nat.add_eq_left, List.count_eq_zero, List.mem_flatMap]
  simp only [not_exists, not_and]

/-- The edits keep an array, unless they append to an entry what is in it already. -/
theorem count_editedEntries_iff (hus : ∀ u ∈ us, isUrl u = true ∨ isTarball u = true)
    (hnodup : us.Nodup) :
    (∀ u ∈ us, (editedEntries active us).count u = 1) ↔
      Everywhere
        (fun before u => Safe (activeFromTexts active (before.map arrayLine)) (arrayLine u)) us ∧
      ∀ u ∈ us, ∀ v ∈ us, u ∉ dependencies v := by
  have hentry : ∀ u ∈ us, IsEntry u := fun u hu => IsEntry.of_mem hus hu
  refine ⟨fun h => ?_, fun h u hu => ?_⟩
  · have hsafe := everywhere_safe hus hnodup fun u hu =>
      List.count_pos_iff.1 ((h u hu).symm ▸ Nat.one_pos)
    exact ⟨hsafe, fun u hu => (count_editedEntries hentry hnodup hu hsafe).1 (h u hu)⟩
  · exact (count_editedEntries hentry hnodup hu h.1).2 (h.2 u hu)

/-! ## The build content -/

/-- If a line is an entry of an array, it is safe. -/
def SafeEntry (active : Bool) (before : List (Tag × Str)) (line : Tag × Str) : Prop :=
  line.1 = .entry → Safe (activeFromTexts active (before.map Prod.snd)) line.2

theorem activeFromTexts_append (active : Bool) (texts texts' : List Str) :
    activeFromTexts active (texts ++ texts') =
      activeFromTexts (activeFromTexts active texts) texts' := List.foldl_append

theorem everywhere_safeEntry_append {lines lines' : List (Tag × Str)} :
    Everywhere (SafeEntry active) (lines ++ lines') ↔ Everywhere (SafeEntry active) lines ∧
      Everywhere (SafeEntry (activeFromTexts active (lines.map Prod.snd))) lines' := by
  rw [everywhere_append]
  refine and_congr_right fun _ => everywhere_congr fun before line _ => ?_
  rw [SafeEntry, SafeEntry, List.map_append, activeFromTexts_append]

theorem everywhere_safeEntry_stages (stages : List Stage) :
    Everywhere (SafeEntry active) (stages.flatMap Stage.tagged) := by
  refine everywhere_of_forall fun before line hline htag => ?_
  obtain ⟨stage, _, hline⟩ := List.mem_flatMap.1 hline
  obtain ⟨text, _, rfl⟩ := List.mem_map.1 hline
  cases hpackage : stage.package with
  | none =>
    rw [hpackage] at htag
    cases htag
  | some package =>
    rw [hpackage] at htag
    cases htag

theorem everywhere_safeEntry_taggedArray :
    Everywhere (SafeEntry active) (taggedArray opening us) ↔
      Everywhere (fun before u =>
        Safe (activeFromTexts (activeFromTexts active [opening]) (before.map arrayLine))
          (arrayLine u)) us := by
  have hother {active : Bool} {before : List (Tag × Str)} {text : Str} :
      SafeEntry active before (.other, text) := fun h => by cases h
  have hclose {active : Bool} : Everywhere (SafeEntry active) [(.other, arrayClose)] :=
    everywhere_cons.2 ⟨hother, everywhere_nil⟩
  rw [taggedArray, everywhere_safeEntry_append, and_iff_left hclose, everywhere_cons,
    and_iff_right hother, everywhere_map]
  refine everywhere_congr fun before u _ => ?_
  have hstate : (before.map fun entry => ((.entry, arrayLine entry) : Tag × Str)).map Prod.snd =
      before.map arrayLine := List.map_map
  rw [SafeEntry, List.map_cons, hstate]
  exact forall_prop_of_true rfl

theorem forall_dependencies_iff : (∀ u ∈ us, ∀ v ∈ us, u ∉ dependencies v) ↔
    ((∃ u ∈ us, contains gccUrl (arrayLine u) = true) →
      ∀ e ∈ gccDependencies.flatMap lineEntries, e ∉ us) := by
  refine ⟨fun h hgcc e he hu => ?_, fun h u hu v hv hmem => ?_⟩
  · obtain ⟨v, hv, hgcc⟩ := hgcc
    refine h e hu v hv ?_
    rwa [dependencies, if_pos hgcc]
  · rw [dependencies] at hmem
    split at hmem
    · next hgcc => exact h ⟨v, hv, hgcc⟩ u hmem hu
    · cases hmem

theorem dependencies_of_isTarball (h : isTarball entry = true) : dependencies entry = [] := by
  rw [dependencies, if_neg]
  rw [contains_iff]
  intro hinfix
  have hmem := hinfix.mem (by decide : '/' ∈ gccUrl)
  rw [isTarball, Bool.and_eq_true, List.all_eq_true] at h
  simp only [arrayLine, List.mem_append, List.mem_singleton, List.mem_replicate] at hmem
  rcases hmem with (hmem | hmem) | hmem | hmem
  · exact absurd hmem.2 (by decide)
  · exact absurd hmem (by decide)
  · exact absurd (h.2 _ hmem) (by decide)
  · exact absurd hmem (by decide)

theorem isUrl_of_mem_dependencies {u : Str} (h : u ∈ dependencies entry) : isUrl u = true := by
  have hurl : ∀ u ∈ gccDependencies.flatMap lineEntries, isUrl u = true := by
    unfold isUrl gccDependencies
    repeat rw [String.toList_ofList]
    decide +kernel
  rw [dependencies] at h
  split at h
  · exact hurl u h
  · cases h

/-- The lines before the array of tools. -/
def Layout.beforeTools (l : Layout) : List Str :=
  l.head.flatMap Stage.lines ++ packagesOpen :: (l.packages.map arrayLine ++
    arrayClose :: l.middle.flatMap Stage.lines)

theorem map_snd_stages (stages : List Stage) :
    (stages.flatMap Stage.tagged).map Prod.snd = stages.flatMap Stage.lines := by
  rw [List.map_flatMap]
  refine List.flatMap_congr fun stage _ => ?_
  exact List.map_map.trans (List.map_id _)

theorem map_snd_taggedArray (opening : Str) (us : List Str) :
    (taggedArray opening us).map Prod.snd = opening :: (us.map arrayLine ++ [arrayClose]) := by
  rw [taggedArray, List.map_append, List.map_cons, List.map_map]
  rfl

theorem Layout.script_eq (l : Layout) : l.script = l.beforeTools ++
    toolsOpen :: (l.tools.map arrayLine ++ arrayClose :: l.rest.flatMap Stage.lines) := by
  simp only [Layout.script, Layout.tagged, Layout.beforeTools, List.map_append, map_snd_stages,
    map_snd_taggedArray, List.append_assoc, List.cons_append, List.nil_append]

theorem Layout.entries_packages (l : Layout) :
    entries packagesOpen (editLfsBuild (written l.script)) = editedEntries
      (activeFromTexts false (l.head.flatMap Stage.lines ++ [packagesOpen])) l.packages := by
  rw [l.script_eq, Layout.beforeTools, List.append_assoc, List.cons_append, List.append_assoc,
    List.cons_append]
  exact entries_editLfsBuild (by simp [brackets]) fun h => (l.head_lines _ h).1 rfl

theorem Layout.entries_tools (l : Layout) :
    entries toolsOpen (editLfsBuild (written l.script)) = editedEntries
      (activeFromTexts false (l.beforeTools ++ [toolsOpen])) l.tools := by
  have hne : toolsOpen ≠ packagesOpen := by decide
  have hne' : toolsOpen ≠ arrayClose := by decide
  rw [l.script_eq]
  refine entries_editLfsBuild (by simp [brackets]) fun h => ?_
  rw [Layout.beforeTools, List.mem_append, List.mem_cons, List.mem_append, List.mem_cons] at h
  rcases h with h | h | h | h | h
  · exact (l.head_lines _ h).2 rfl
  · exact hne h
  · exact not_mem_map_arrayLine (by simp [brackets]) h
  · exact hne' h
  · exact l.middle_lines _ h rfl

theorem Layout.everywhere_safeEntry (l : Layout) : Everywhere (SafeEntry false) l.tagged ↔
    Everywhere (fun before u => Safe (activeFromTexts
      (activeFromTexts false (l.head.flatMap Stage.lines ++ [packagesOpen]))
        (before.map arrayLine)) (arrayLine u)) l.packages ∧
    Everywhere (fun before u => Safe (activeFromTexts
      (activeFromTexts false (l.beforeTools ++ [toolsOpen])) (before.map arrayLine))
        (arrayLine u)) l.tools := by
  rw [Layout.tagged, everywhere_safeEntry_append, everywhere_safeEntry_append,
    everywhere_safeEntry_append, everywhere_safeEntry_append,
    and_iff_right (everywhere_safeEntry_stages _), and_iff_right (everywhere_safeEntry_stages _),
    and_iff_left (everywhere_safeEntry_stages _), everywhere_safeEntry_taggedArray,
    everywhere_safeEntry_taggedArray, Layout.beforeTools]
  simp only [activeFromTexts, map_snd_stages, map_snd_taggedArray, List.foldl_append,
    List.foldl_cons, List.foldl_nil]

/-- The edits lose no build content exactly if no entry of an array and no build line of
    another package has one of the names that are replaced, is about `util-linux`, or is
    deleted in its range, and nothing that is appended for GCC is there already. -/
theorem contentKept_iff (l : Layout) : ContentKept l ↔
    Everywhere (fun before line => line.1 = .entry ∨ IsBuild line →
      Safe (activeFromTexts false (before.map Prod.snd)) line.2) l.tagged ∧
    ((∃ u ∈ l.packages, contains gccUrl (arrayLine u) = true) →
      ∀ e ∈ gccDependencies.flatMap lineEntries, e ∉ l.packages) := by
  have hpackages : ∀ u ∈ l.packages, isUrl u = true ∨ isTarball u = true := fun u hu =>
    .inl (l.packages_url u hu)
  have htools : ∀ u ∈ l.tools, isUrl u = true ∨ isTarball u = true := fun u hu =>
    .inr (l.tools_tarball u hu)
  have hnone : ∀ u ∈ l.tools, ∀ v ∈ l.tools, u ∉ dependencies v := fun u _ v hv h => by
    rw [dependencies_of_isTarball (l.tools_tarball v hv)] at h
    cases h
  have hlines : Everywhere (fun before line => line.1 = .entry ∨ IsBuild line →
      Safe (activeFromTexts false (before.map Prod.snd)) line.2) l.tagged ↔
      Everywhere (SafeEntry false) l.tagged ∧ Everywhere (fun before line => IsBuild line →
        Safe (activeFromTexts false (before.map Prod.snd)) line.2) l.tagged := by
    rw [← everywhere_and]
    exact everywhere_congr fun before line _ => or_imp
  have hbuild : Everywhere (fun before line => IsBuild line →
      Kept (before.map Prod.snd) line.2) l.tagged ↔ Everywhere (fun before line =>
        IsBuild line → Safe (activeFromTexts false (before.map Prod.snd)) line.2) l.tagged :=
    everywhere_congr fun before line _ => imp_congr_right fun _ => kept_iff
  rw [hlines, ← hbuild, l.everywhere_safeEntry, ← forall_dependencies_iff]
  refine ⟨fun h => ?_, fun h => ?_⟩
  · have hp := h.packages
    have ht := h.tools
    rw [l.entries_packages, count_editedEntries_iff hpackages l.packages_nodup] at hp
    rw [l.entries_tools, count_editedEntries_iff htools l.tools_nodup] at ht
    exact ⟨⟨⟨hp.1, ht.1⟩, h.build⟩, hp.2⟩
  · obtain ⟨⟨⟨hp, ht⟩, hb⟩, hgcc⟩ := h
    refine ⟨?_, ?_, ?_, hb⟩
    · rw [l.entries_packages, count_editedEntries_iff hpackages l.packages_nodup]
      exact ⟨hp, hgcc⟩
    · rw [l.entries_tools, count_editedEntries_iff htools l.tools_nodup]
      exact ⟨ht, hnone⟩
    · rw [l.entries_packages, editedEntries_eq (fun u hu => IsEntry.of_mem hpackages hu) hp]
      intro u hu
      obtain ⟨v, hv, hu⟩ := List.mem_flatMap.1 hu
      rcases List.mem_cons.1 hu with rfl | hu
      · exact .inl hv
      · exact .inr (isUrl_of_mem_dependencies hu)

/-- The arrays of `lfs-build.sh`, shortened, with the stage between them and the one after. -/
def lfsBuild : Layout where
  head := [⟨none, ["download_packages() \x7b".toList]⟩]
  packages := [gccUrl, utilLinuxUrl]
  middle := [⟨none, ["\x7d".toList, "build_glibc() \x7b".toList]⟩,
    ⟨some "glibc".toList, ["    make_build".toList, "    make DESTDIR=\"$LFS\" install".toList]⟩,
    ⟨none, ["\x7d".toList, "build_core_tools() \x7b".toList]⟩]
  tools := ["bash-5.2.21.tar.gz".toList, utilLinuxTarball]
  rest := [⟨some "bash".toList,
    ["                make_build".toList, "                make DESTDIR=\"$LFS\" install".toList]⟩,
    ⟨none, ["\x7d".toList]⟩]
  packages_url := by decide +kernel
  packages_nodup := by decide +kernel
  tools_tarball := by decide +kernel
  tools_nodup := by decide +kernel
  head_lines := by decide +kernel
  middle_lines := by decide +kernel

/-- The URL of `util-linux` is replaced by the lines that build it. -/
theorem not_contentKept_lfsBuild : ¬ContentKept lfsBuild := fun h => by
  have hpackages := h.packages
  rw [Layout.entries_packages, count_editedEntries_iff
    (fun u hu => .inl (lfsBuild.packages_url u hu)) lfsBuild.packages_nodup] at hpackages
  have hsafe := hpackages.1 [gccUrl] utilLinuxUrl [] rfl
  exact absurd hsafe.utilLinux (by decide +kernel)

end LfsBuilder.FixLfsBuilder
