import LfsBuilder.Library.HereDocument

/-!
# Files of exports

How bash reads a file of comments and of commands `export NAME="text"` when it is
sourced. In the double quotes the parameters are expanded, and backslashes quote
the characters that are special there. Everything else that a text can be (other
expansions, commands in it, words or commands after it) is not such a file.

* `readQuoted`: the value of a text in double quotes;
* `readQuoted_inert`, `inert_of_readQuoted`: a text is its own value exactly if
  nothing in it is special;
* `source_render_iff`: hence a file gives the variables back that are written to it
  exactly if nothing is special in their values;
* `Bash`: a shell that sources any file, these as they are read here.
-/

namespace Sourcing

open Text HereDocument

/-- The values of the parameters. -/
abbrev Env := Str → Str

/-- Where the reader of a text in double quotes is. -/
inductive Reading
  | plain
  | escape
  | dollar
  | parameter (name : Str)
  | braces (name : Str)
  deriving DecidableEq

/-- The characters that a backslash quotes, or takes away. -/
def isEscapable (c : Char) : Bool := c ∈ ['$', '`', '"', '\\', '\n']

/-- The characters that begin an expansion, after a dollar sign. -/
def startsExpansion (c : Char) : Bool :=
  isNameStart c || isSpecialParameter c || c ∈ ['{', '(', '[']

/-- A parameter, as it can stand in braces. -/
def isParameter : Str → Bool
  | [] => false
  | c :: s => isNameStart c && s.all isNameChar || isSpecialParameter c && s = []

/-- The next character, outside of an expansion: the new reading, and the value so far. -/
def plainNext (value : Str) (c : Char) : Option (Reading × Str) :=
  if c = '\\' then some (.escape, value)
  else if c = '$' then some (.dollar, value)
  else if c = '`' then none
  else some (.plain, value ++ [c])

/-- The next character. -/
def next (env : Env) : Reading → Str → Char → Option (Reading × Str)
  | .plain, value, c => plainNext value c
  | .escape, value, c =>
    some (.plain, if c = '\n' then value
      else if isEscapable c then value ++ [c] else value ++ ['\\', c])
  | .dollar, value, c =>
    if isNameStart c then some (.parameter [c], value)
    else if isSpecialParameter c then some (.plain, value ++ env [c])
    else if c = '{' then some (.braces [], value)
    else if c = '(' ∨ c = '[' then none
    else plainNext (value ++ ['$']) c
  | .parameter name, value, c =>
    if isNameChar c then some (.parameter (name ++ [c]), value) else plainNext (value ++ env name) c
  | .braces name, value, c =>
    if c ≠ '}' then some (.braces (name ++ [c]), value)
    else if isParameter name then some (.plain, value ++ env name) else none

/-- The closing quotation mark. -/
def finish (env : Env) : Reading → Str → Option Str
  | .plain, value => some value
  | .dollar, value => some (value ++ ['$'])
  | .parameter name, value => some (value ++ env name)
  | .escape, _ => none
  | .braces _, _ => none

/-- The value of a text up to its closing quotation mark, and what follows it. -/
def readQuoted (env : Env) : Reading → Str → Str → Option (Str × Str)
  | _, _, [] => none
  | r, value, c :: s =>
    if c = '"' ∧ r ≠ .escape then (finish env r value).map (·, s)
    else (next env r value c).bind fun p => readQuoted env p.1 p.2 s

/-- Nothing in the text is special in double quotes: there is no quotation mark and no
    backquote, no backslash before a character that it quotes or at the end, and no
    dollar sign before a character that begins an expansion. -/
def inert : Str → Bool
  | [] => true
  | c :: s => c ≠ '"' && c ≠ '`' && (c ≠ '\\' || s.head?.any (!isEscapable ·)) &&
      (c ≠ '$' || s.head?.all (!startsExpansion ·)) && inert s

variable {env : Env} {r : Reading} {s t u v w rest post value : Str} {c : Char}

/-! ## Inert texts -/

theorem inert_cons : inert (c :: s) = true ↔ c ≠ '"' ∧ c ≠ '`' ∧
    (c = '\\' → ∃ d ∈ s.head?, isEscapable d = false) ∧
    (c = '$' → ∀ d ∈ s.head?, startsExpansion d = false) ∧ inert s = true := by
  cases s <;> simp [inert, ← imp_iff_not_or, and_assoc]

theorem inert_of_append (h : inert (u ++ s) = true) : inert s = true := by
  induction u with
  | nil => exact h
  | cons c u ih => exact ih (inert_cons.1 h).2.2.2.2

theorem readQuoted_escape (hc : isEscapable c = false) :
    readQuoted env .escape v (c :: s) = readQuoted env .plain (v ++ ['\\']) (c :: s) := by
  simp only [isEscapable, List.mem_cons, List.not_mem_nil, or_false, decide_eq_false_iff_not,
    not_or] at hc
  simp [readQuoted, next, plainNext, isEscapable, hc]

theorem readQuoted_dollar (hc : startsExpansion c = false) :
    readQuoted env .dollar v (c :: s) = readQuoted env .plain (v ++ ['$']) (c :: s) := by
  simp only [startsExpansion, Bool.or_eq_false_iff, List.mem_cons, List.not_mem_nil, or_false,
    decide_eq_false_iff_not, not_or] at hc
  simp [readQuoted, next, finish, hc]

theorem readQuoted_quote : readQuoted env .plain v ('"' :: s) = some (v, s) := rfl

theorem readQuoted_plain (h : c ∉ ['"', '\\', '$', '`']) :
    readQuoted env .plain v (c :: s) = readQuoted env .plain (v ++ [c]) s := by
  simp only [List.mem_cons, List.not_mem_nil, or_false, not_or] at h
  simp [readQuoted, next, plainNext, h]

/-- The value of an inert text is the text. -/
theorem readQuoted_inert (hw : inert w = true) (v s : Str) :
    readQuoted env .plain v (w ++ '"' :: s) = some (v ++ w, s) := by
  induction w generalizing v with
  | nil => rw [List.nil_append, readQuoted_quote, List.append_nil]
  | cons c w ih =>
    obtain ⟨hquote, hback, hescape, hdollar, hw⟩ := inert_cons.1 hw
    by_cases hc : c = '\\'
    · obtain ⟨d, hd, hde⟩ := hescape hc
      obtain ⟨w', rfl⟩ := List.head?_eq_some_iff.1 hd
      have hstep : readQuoted env .plain v (c :: (d :: w' ++ '"' :: s)) =
          readQuoted env .escape v (d :: (w' ++ '"' :: s)) := by subst hc; rfl
      rw [List.cons_append, hstep, readQuoted_escape hde, ← List.cons_append, ih hw, hc]
      simp
    by_cases hc' : c = '$'
    · have hstep : readQuoted env .plain v (c :: (w ++ '"' :: s)) =
          readQuoted env .dollar v (w ++ '"' :: s) := by subst hc'; rfl
      have hnext : readQuoted env .dollar v (w ++ '"' :: s) =
          readQuoted env .plain (v ++ ['$']) (w ++ '"' :: s) := by
        cases w with
        | nil => exact readQuoted_dollar (by decide)
        | cons d w => exact readQuoted_dollar (hdollar hc' d rfl)
      rw [List.cons_append, hstep, hnext, ih hw, hc']
      simp
    · rw [List.cons_append, readQuoted_plain (by simp [*]), ih hw]
      simp

/-! ## Texts that are their own values -/

theorem prefix_of_plainNext {p : Reading × Str} (h : plainNext v c = some p) : v <+: p.2 := by
  unfold plainNext at h
  split_ifs at h <;> cases h
  · exact List.prefix_refl v
  · exact List.prefix_refl v
  · exact List.prefix_append v _

theorem prefix_of_next {p : Reading × Str} (h : next env r v c = some p) : v <+: p.2 := by
  cases r with
  | plain => exact prefix_of_plainNext h
  | escape =>
    cases h
    dsimp only
    split_ifs
    · exact List.prefix_refl v
    · exact List.prefix_append v _
    · exact List.prefix_append v _
  | dollar =>
    rw [next] at h
    split_ifs at h
    · cases h
      exact List.prefix_refl v
    · cases h
      exact List.prefix_append v _
    · cases h
      exact List.prefix_refl v
    · exact (List.prefix_append v _).trans (prefix_of_plainNext h)
  | parameter name =>
    rw [next] at h
    split_ifs at h
    · cases h
      exact List.prefix_refl v
    · exact (List.prefix_append v _).trans (prefix_of_plainNext h)
  | braces name =>
    rw [next] at h
    split_ifs at h <;> cases h
    · exact List.prefix_refl v
    · exact List.prefix_append v _

/-- A value only grows. -/
theorem prefix_of_readQuoted (h : readQuoted env r v t = some (value, rest)) : v <+: value := by
  induction t generalizing r v with
  | nil => cases h
  | cons c t ih =>
    rw [readQuoted] at h
    split_ifs at h
    · obtain ⟨w, hw, heq⟩ := Option.map_eq_some_iff.1 h
      cases heq
      cases r <;> cases hw
      · exact List.prefix_refl _
      · exact List.prefix_append _ _
      · exact List.prefix_append _ _
    · obtain ⟨p, hp, h⟩ := Option.bind_eq_some_iff.1 h
      exact (prefix_of_next hp).trans (ih h)

/-- A value that is inert cannot hold the expansion it is put for: it ends before the
    character after the dollar sign. -/
theorem length_le_of_inert (hw : inert w = true) (hc : startsExpansion c = true)
    (hv : v.length ≤ u.length) (h : v ++ w <+: u ++ '$' :: c :: s) :
    (v ++ w).length ≤ u.length + 1 := by
  obtain ⟨a, rfl⟩ : v <+: u :=
    List.prefix_of_prefix_length_le ((List.prefix_append v w).trans h) (List.prefix_append u _) hv
  rw [List.append_assoc, List.prefix_append_right_inj] at h
  by_contra hlt
  have hlen : (a ++ ['$', c]).length ≤ w.length := by
    simp only [List.length_append, List.length_cons, List.length_nil] at hlt ⊢
    omega
  have hpre : a ++ ['$', c] <+: a ++ '$' :: c :: s := by
    simp [List.prefix_append_right_inj]
  obtain ⟨b, hb⟩ := List.prefix_of_prefix_length_le hpre h hlen
  rw [← hb, List.append_assoc] at hw
  have hdollar := (inert_cons.1 (inert_of_append hw)).2.2.2.1 rfl c rfl
  exact Bool.false_ne_true (hdollar.symm.trans hc)

/-- The value that has been read is not longer than what it was read from, `u`, without
    the part that is still open. -/
def Behind : Reading → (value u : Str) → Prop
  | .plain, v, u => v.length ≤ u.length
  | .escape, v, u => ∃ u₀, u = u₀ ++ ['\\'] ∧ v.length ≤ u₀.length
  | .dollar, v, u => ∃ u₀, u = u₀ ++ ['$'] ∧ v.length ≤ u₀.length
  | .parameter name, v, u => ∃ u₀ c m, name = c :: m ∧ startsExpansion c = true ∧
      u = u₀ ++ '$' :: name ∧ v.length ≤ u₀.length
  | .braces name, v, u => ∃ u₀, u = u₀ ++ '$' :: '{' :: name ∧ v.length ≤ u₀.length

/-- The value is as long as what it was read from, and the text that is to come is
    inert. -/
def Level : Reading → (value u t : Str) → Prop
  | .plain, v, u, t => v.length = u.length ∧ inert t = true
  | .escape, v, u, t => v.length + 1 = u.length ∧ (∃ d ∈ t.head?, isEscapable d = false) ∧
      inert t = true
  | .dollar, v, u, t => v.length + 1 = u.length ∧ (∀ d ∈ t.head?, startsExpansion d = false) ∧
      inert t = true
  | .parameter _, _, _, _ => False
  | .braces _, _, _, _ => False

theorem level_of_plainNext {p : Reading × Str} (hp : plainNext v c = some p) (hc : c ≠ '"')
    (hv : v.length ≤ u.length)
    (ih : Behind p.1 p.2 (u ++ [c]) → Level p.1 p.2 (u ++ [c]) t) :
    v.length = u.length ∧ inert (c :: t) = true := by
  unfold plainNext at hp
  split_ifs at hp with hescape hdollar hback <;> cases hp
  · obtain ⟨hlen, hhead, ht⟩ := ih ⟨u, by rw [hescape], hv⟩
    refine ⟨by simpa using hlen, inert_cons.2 ⟨hc, by simp [hescape], fun _ => hhead, ?_, ht⟩⟩
    exact fun h => absurd (hescape.symm.trans h) (by decide)
  · obtain ⟨hlen, hhead, ht⟩ := ih ⟨u, by rw [hdollar], hv⟩
    refine ⟨by simpa using hlen, inert_cons.2 ⟨hc, by simp [hdollar], ?_, fun _ => hhead, ht⟩⟩
    exact fun h => absurd (hdollar.symm.trans h) (by decide)
  · obtain ⟨hlen, ht⟩ := ih (by simpa [Behind] using hv)
    exact ⟨by simpa using hlen, inert_cons.2 ⟨hc, hback, fun h => absurd h hescape,
      fun h => absurd h hdollar, ht⟩⟩

/-- What the next character does to a value that is behind: it stays behind, and is
    level only if it was. -/
theorem level_of_next {p : Reading × Str} (henv : ∀ name, inert (env name) = true)
    (hp : next env r v c = some p) (hquote : c = '"' → r = .escape) (hr : Behind r v u)
    (hpre : p.2 <+: u ++ c :: t) (ih : Behind p.1 p.2 (u ++ [c]) → Level p.1 p.2 (u ++ [c]) t) :
    Level r v u (c :: t) := by
  cases r with
  | plain => exact level_of_plainNext hp (fun h => by cases hquote h) hr ih
  | escape =>
    obtain ⟨u₀, rfl, hv⟩ := hr
    cases hp
    by_cases hc : isEscapable c = true
    · -- What is quoted is shorter than the quotation.
      exfalso
      simp only [hc, if_true] at ih
      split_ifs at ih
      · have hlen := (ih (by simp [Behind]; omega)).1
        simp only [List.length_append, List.length_cons, List.length_nil] at hlen
        omega
      · have hlen := (ih (by simp [Behind]; omega)).1
        simp only [List.length_append, List.length_cons, List.length_nil] at hlen
        omega
    · have hc' : c ∉ ['$', '`', '"', '\\', '\n'] := by simpa [isEscapable] using hc
      simp only [List.mem_cons, List.not_mem_nil, or_false, not_or] at hc'
      simp only [hc, hc'.2.2.2.2, if_false] at ih
      obtain ⟨hlen, ht⟩ := ih (by simp [Behind]; omega)
      refine ⟨by simpa using hlen, ⟨c, rfl, by simpa using hc⟩, ?_⟩
      exact inert_cons.2 ⟨hc'.2.2.1, hc'.2.1, fun h => absurd h hc'.2.2.2.1,
        fun h => absurd h hc'.1, ht⟩
  | dollar =>
    obtain ⟨u₀, rfl, hv⟩ := hr
    rw [next] at hp
    split_ifs at hp with hname hspecial hbrace hother
    · cases hp
      exact (ih ⟨u₀, c, [], rfl, by simp [startsExpansion, hname], by simp, hv⟩).elim
    · cases hp
      have hstarts : startsExpansion c = true := by simp [startsExpansion, hspecial]
      have hlen := length_le_of_inert (henv [c]) hstarts hv (by simpa using hpre)
      have hlevel := (ih (by simp [Behind] at hlen ⊢; omega)).1
      simp only [List.length_append, List.length_cons, List.length_nil] at hlen hlevel
      omega
    · cases hp
      exact (ih ⟨u₀, by simp [hbrace], hv⟩).elim
    · obtain ⟨hlen, ht⟩ := level_of_plainNext hp (fun h => by cases hquote h)
        (by simpa using hv) ih
      refine ⟨by simpa using hlen, ?_, ht⟩
      rintro d ⟨⟩
      rw [not_or] at hother
      simp [startsExpansion, hname, hspecial, hbrace, hother]
  | parameter name =>
    obtain ⟨u₀, d, m, rfl, hd, rfl, hv⟩ := hr
    rw [next] at hp
    split_ifs at hp with hname
    · cases hp
      exact (ih ⟨u₀, d, m ++ [c], rfl, hd, by simp, hv⟩).elim
    · have hlen := length_le_of_inert (henv (d :: m)) hd hv
        ((prefix_of_plainNext hp).trans (by simpa using hpre))
      have hlevel := (level_of_plainNext hp (fun h => by cases hquote h)
        (by simp at hlen ⊢; omega) ih).1
      simp only [List.length_append, List.length_cons] at hlen hlevel
      omega
  | braces name =>
    obtain ⟨u₀, rfl, hv⟩ := hr
    rw [next] at hp
    split_ifs at hp <;> cases hp
    · exact (ih ⟨u₀, by simp, hv⟩).elim
    · have hstarts : startsExpansion '{' = true := by decide
      have hlen := length_le_of_inert (henv name) hstarts hv (by simpa using hpre)
      have hlevel := (ih (by simp [Behind] at hlen ⊢; omega)).1
      simp only [List.length_append, List.length_cons, List.length_nil] at hlen hlevel
      omega

/-- A value that ends early is not the whole text. -/
theorem finish_ne (henv : ∀ name, inert (env name) = true) (hr : Behind r v u) (hs : s ≠ []) :
    finish env r v ≠ some (u ++ s) := fun h => by
  have hpos : 0 < s.length := List.length_pos_iff.2 hs
  cases r with
  | plain =>
    cases h
    simp only [Behind, List.length_append] at hr
    omega
  | escape => cases h
  | dollar =>
    obtain ⟨u₀, rfl, hv⟩ := hr
    have hlen := congrArg List.length (Option.some_inj.1 h)
    simp only [List.length_append, List.length_cons, List.length_nil] at hlen
    omega
  | parameter name =>
    obtain ⟨u₀, d, m, rfl, hd, rfl, hv⟩ := hr
    have heq : v ++ env (d :: m) = u₀ ++ '$' :: d :: (m ++ s) := by
      simpa using Option.some_inj.1 h
    have hlen := length_le_of_inert (henv (d :: m)) hd hv (by rw [heq])
    rw [heq] at hlen
    simp only [List.length_append, List.length_cons] at hlen
    omega
  | braces name => cases h

/-- A value that is the text itself is level: so is the reader at every character. The
    text `post` after the quotation mark is read only if a backslash is left before it;
    it is enough that no value ends in a backslash then. -/
theorem level_of_readQuoted (henv : ∀ name, inert (env name) = true)
    (hpost : ∀ v value rest, readQuoted env .plain v post = some (value, rest) →
      value.getLast? ≠ some '\\')
    (hr : Behind r v u) (h : readQuoted env r v (t ++ '"' :: post) = some (u ++ t, rest)) :
    Level r v u t := by
  induction t generalizing r v u with
  | nil =>
    rw [List.nil_append, List.append_nil, readQuoted] at h
    split_ifs at h with hquote
    · obtain ⟨w, hw, heq⟩ := Option.map_eq_some_iff.1 h
      cases heq
      cases r with
      | plain =>
        cases hw
        exact ⟨rfl, rfl⟩
      | escape => cases hw
      | dollar =>
        cases hw
        exact ⟨by simp, by simp, rfl⟩
      | parameter name =>
        obtain ⟨u₀, d, m, rfl, hd, rfl, hv⟩ := hr
        have heq : v ++ env (d :: m) = u₀ ++ '$' :: d :: m := Option.some_inj.1 hw
        have hlen := length_le_of_inert (henv (d :: m)) hd hv (by rw [heq])
        rw [heq] at hlen
        simp only [List.length_append, List.length_cons] at hlen
        omega
      | braces name => cases hw
    · -- The backslash at the end quotes the quotation mark.
      have hr' : r = .escape := by simpa using hquote
      subst hr'
      obtain ⟨u₀, rfl, _⟩ := hr
      refine absurd ?_ (hpost _ _ _ h)
      simp
  | cons c t ih =>
    rw [List.cons_append, readQuoted] at h
    split_ifs at h with hquote
    · obtain ⟨w, hw, heq⟩ := Option.map_eq_some_iff.1 h
      cases heq
      exact absurd hw (finish_ne henv hr (List.cons_ne_nil c t))
    · obtain ⟨p, hp, h⟩ := Option.bind_eq_some_iff.1 h
      refine level_of_next henv hp (fun hc => ?_) hr (prefix_of_readQuoted h) fun hb => ?_
      · simpa [hc] using hquote
      · exact ih hb (by simpa using h)

/-- A text that is its own value is inert. -/
theorem inert_of_readQuoted (henv : ∀ name, inert (env name) = true)
    (hpost : ∀ v value rest, readQuoted env .plain v post = some (value, rest) →
      value.getLast? ≠ some '\\')
    (h : readQuoted env .plain [] (w ++ '"' :: post) = some (w, rest)) : inert w = true := by
  have hlevel : Level .plain [] [] w := level_of_readQuoted henv hpost (Nat.le_refl 0) h
  exact hlevel.2

/-! ## Files -/

/-- The name of a command `export NAME="`, and what follows it. -/
def exportName (s : Str) : Option (Str × Str) :=
  if "export ".toList.isPrefixOf s then
    let name := (s.drop 7).takeWhile isNameChar
    let rest := (s.drop 7).dropWhile isNameChar
    if name.head?.any isNameStart && ['=', '"'].isPrefixOf rest then some (name, rest.drop 2)
    else none
  else none

/-- The name and the value of the export that the text begins with, if it ends with its
    line, and what follows it. -/
def command (env : Env) (s : Str) : Option (Str × Str × Str) :=
  (exportName s).bind fun p => (readQuoted env .plain [] p.2).bind fun q =>
    if q.2.head?.all (· = '\n') then some (p.1, q) else none

theorem length_of_readQuoted (h : readQuoted env r v s = some (value, rest)) :
    rest.length < s.length := by
  induction s generalizing r v with
  | nil => cases h
  | cons c s ih =>
    rw [readQuoted] at h
    split_ifs at h
    · obtain ⟨w, _, heq⟩ := Option.map_eq_some_iff.1 h
      cases heq
      exact Nat.lt_succ_self _
    · obtain ⟨p, _, h⟩ := Option.bind_eq_some_iff.1 h
      exact (ih h).trans (Nat.lt_succ_self _)

theorem length_of_command {name : Str} (h : command env s = some (name, value, rest)) :
    rest.length < s.length := by
  obtain ⟨⟨name', s'⟩, hname, h⟩ := Option.bind_eq_some_iff.1 h
  obtain ⟨⟨value', rest'⟩, hread, h⟩ := Option.bind_eq_some_iff.1 h
  split_ifs at h
  cases h
  have hs' : s'.length ≤ s.length := by
    simp only [exportName] at hname
    split_ifs at hname
    cases hname
    have hdrop := (List.dropWhile_suffix isNameChar (l := s.drop 7)).length_le
    simp only [List.length_drop] at hdrop ⊢
    omega
  exact (length_of_readQuoted hread).trans_le hs'

/-- `source`, on the text of a file: the parameters that it leaves, and the exports that
    are executed; `none` if there is anything else in the file. -/
def source (env : Env) : Str → Option (Env × List (Str × Str))
  | [] => some (env, [])
  | c :: s =>
    if c = '\n' then source env s
    else if c = '#' then source env (s.dropWhile (· ≠ '\n'))
    else
      match _h : command env (c :: s) with
      | none => none
      | some (name, value, rest) =>
        (source (Function.update env name value) rest).map fun p => (p.1, (name, value) :: p.2)
  termination_by s => s.length
  decreasing_by
    · exact Nat.lt_succ_self _
    · exact Nat.lt_succ_of_le (List.dropWhile_suffix _).length_le
    · exact length_of_command _h

/-- A line, or an export. -/
inductive Entry
  | blank
  | comment (text : Str)
  | assign (name value : Str)
  deriving DecidableEq

/-- The text of an entry. The value is written as it is. -/
def Entry.render : Entry → Str
  | blank => ['\n']
  | comment text => '#' :: text ++ ['\n']
  | assign name value => "export ".toList ++ name ++ '=' :: '"' :: value ++ ['"', '\n']

/-- The text of a file. -/
def render (es : List Entry) : Str := es.flatMap Entry.render

/-- The variable that an entry is for, and its value. -/
def Entry.assignment? : Entry → Option (Str × Str)
  | assign name value => some (name, value)
  | _ => none

/-- The variables of a file. -/
def assignments (es : List Entry) : List (Str × Str) := es.filterMap Entry.assignment?

/-- Comments are on one line, without anything special, and the variables have names. -/
def Entry.WellFormed : Entry → Prop
  | blank => True
  | comment text => ∀ c ∈ text, c ∉ ['"', '\\', '$', '`', '\n']
  | assign name _ => name.head?.any isNameStart = true ∧ ∀ c ∈ name, isNameChar c = true

instance : DecidablePred Entry.WellFormed
  | .blank => .isTrue trivial
  | .comment text => inferInstanceAs (Decidable (∀ c ∈ text, _))
  | .assign _ _ => inferInstanceAs (Decidable (_ ∧ _))

theorem Entry.WellFormed.chars {text : Str} (h : (comment text).WellFormed) :
    ∀ c ∈ text, c ∉ ['"', '\\', '$', '`', '\n'] := h

theorem Entry.WellFormed.notMem {text : Str} (h : (comment text).WellFormed) : '\n' ∉ text :=
  fun hmem => h.chars '\n' hmem (by decide)

/-- The parameters after the exports. -/
def exported (env : Env) (l : List (Str × Str)) : Env :=
  l.foldl (fun env p => Function.update env p.1 p.2) env

/-- Variables that are set once have the values that they are set to. -/
theorem exported_eq {l : List (Str × Str)} {p : Str × Str} (hl : (l.map Prod.fst).Nodup)
    (hp : p ∈ l) : exported env l p.1 = p.2 := by
  have hother : ∀ (l : List (Str × Str)) (env : Env) (name : Str), name ∉ l.map Prod.fst →
      exported env l name = env name := fun l => by
    induction l with
    | nil => exact fun _ _ _ => rfl
    | cons q l ih =>
      intro env name hname
      rw [List.map_cons, List.mem_cons, not_or] at hname
      exact (ih _ _ hname.2).trans (Function.update_of_ne hname.1 _ _)
  induction l generalizing env with
  | nil => cases hp
  | cons q l ih =>
    rw [List.map_cons, List.nodup_cons] at hl
    rcases List.mem_cons.1 hp with rfl | hp
    · exact (hother l _ _ hl.1).trans (Function.update_self _ _ _)
    · exact ih hl.2 hp

variable {name : Str} {es : List Entry}

theorem source_newline : source env ('\n' :: s) = source env s := by
  rw [source, if_pos rfl]

theorem source_comment (hs : '\n' ∉ s) : source env ('#' :: s ++ '\n' :: t) = source env t := by
  rw [List.cons_append, source, if_neg (by decide), if_pos rfl, List.dropWhile_append_of_pos,
    List.dropWhile_cons_of_neg (by simp), source_newline]
  exact fun c hc => decide_eq_true fun h => hs (h ▸ hc)

theorem exportName_eq (hname : name.head?.any isNameStart = true)
    (hchars : ∀ c ∈ name, isNameChar c = true) (s : Str) :
    exportName ("export ".toList ++ name ++ '=' :: '"' :: s) = some (name, s) := by
  have hpre : "export ".toList.isPrefixOf ("export ".toList ++ name ++ '=' :: '"' :: s) = true := by
    rw [List.append_assoc]
    exact List.isPrefixOf_iff_prefix.2 (List.prefix_append _ _)
  have hdrop : ("export ".toList ++ name ++ '=' :: '"' :: s).drop 7 = name ++ '=' :: '"' :: s := rfl
  simp only [exportName]
  rw [if_pos hpre, hdrop, List.takeWhile_append_of_pos hchars, List.dropWhile_append_of_pos hchars,
    List.takeWhile_cons_of_neg (by decide), List.dropWhile_cons_of_neg (by decide),
    List.append_nil, hname]
  rfl

/-- An export is executed if the line ends with its quotation mark. -/
theorem source_assign (hname : name.head?.any isNameStart = true)
    (hchars : ∀ c ∈ name, isNameChar c = true) (s : Str) :
    source env ("export ".toList ++ name ++ '=' :: '"' :: s) =
      (readQuoted env .plain [] s).bind fun q =>
        if q.2.head?.all (· = '\n') then
          (source (Function.update env name q.1) q.2).map fun p => (p.1, (name, q.1) :: p.2)
        else none := by
  have hcommand : command env ("export ".toList ++ name ++ '=' :: '"' :: s) =
      (readQuoted env .plain [] s).bind fun q =>
        if q.2.head?.all (· = '\n') then some (name, q) else none := by
    rw [command, exportName_eq hname hchars, Option.bind_some]
  have hcons : "export ".toList ++ name ++ '=' :: '"' :: s =
      'e' :: ("xport ".toList ++ name ++ '=' :: '"' :: s) := rfl
  rw [hcons] at hcommand ⊢
  rw [source, if_neg (by decide), if_neg (by decide)]
  cases hread : readQuoted env .plain [] s with
  | none =>
    rw [hread] at hcommand
    split
    · rfl
    · next h => cases hcommand.symm.trans h
  | some q =>
    rw [hread, Option.bind_some] at hcommand
    rw [Option.bind_some]
    split_ifs at hcommand ⊢
    · split
      · next h => cases hcommand.symm.trans h
      · next h =>
        cases hcommand.symm.trans h
        rfl
    · split
      · rfl
      · next h => cases hcommand.symm.trans h

theorem assignments_blank : assignments (.blank :: es) = assignments es := rfl

theorem assignments_comment {text : Str} : assignments (.comment text :: es) = assignments es := rfl

theorem assignments_assign :
    assignments (.assign name value :: es) = (name, value) :: assignments es := rfl

theorem Entry.render_comment {text : Str} : (comment text).render = '#' :: text ++ ['\n'] := rfl

theorem Entry.render_assign : (assign name value).render =
    "export ".toList ++ name ++ '=' :: '"' :: value ++ ['"', '\n'] := rfl

theorem render_cons (e : Entry) : render (e :: es) = e.render ++ render es := List.flatMap_cons

/-- A file with inert values sets its variables, and does nothing else. -/
theorem source_render (hwf : ∀ e ∈ es, e.WellFormed)
    (hinert : ∀ p ∈ assignments es, inert p.2 = true) (env : Env) :
    source env (render es) = some (exported env (assignments es), assignments es) := by
  induction es generalizing env with
  | nil =>
    rw [render, List.flatMap_nil, source]
    rfl
  | cons e es ih =>
    have hes : ∀ e ∈ es, e.WellFormed := fun e he => hwf e (List.mem_cons_of_mem _ he)
    rw [render_cons]
    cases e with
    | blank =>
      rw [assignments_blank] at hinert ⊢
      exact source_newline.trans (ih hes hinert env)
    | comment text =>
      rw [assignments_comment] at hinert ⊢
      have htext : (Entry.comment text).WellFormed := hwf _ List.mem_cons_self
      rw [Entry.render_comment, List.append_assoc, List.singleton_append,
        source_comment htext.notMem, ih hes hinert]
    | assign name value =>
      rw [assignments_assign, List.forall_mem_cons] at hinert
      obtain ⟨hname, hchars⟩ := hwf (.assign name value) List.mem_cons_self
      have htext : (Entry.assign name value).render ++ render es =
          "export ".toList ++ name ++ '=' :: '"' :: (value ++ '"' :: '\n' :: render es) := by
        simp [Entry.render_assign]
      rw [htext, source_assign hname hchars, readQuoted_inert hinert.1, Option.bind_some,
        List.nil_append, List.head?_cons, Option.all_some, if_pos (by decide), source_newline,
        ih hes hinert.2]
      rfl

theorem readQuoted_append (hu : ∀ c ∈ u, c ∉ ['"', '\\', '$', '`']) (v s : Str) :
    readQuoted env .plain v (u ++ s) = readQuoted env .plain (v ++ u) s := by
  induction u generalizing v with
  | nil => rw [List.nil_append, List.append_nil]
  | cons c u ih =>
    rw [List.forall_mem_cons] at hu
    rw [List.cons_append, readQuoted_plain hu.1, ih hu.2, List.append_assoc, List.singleton_append]

theorem notMem_of_isNameChar (hc : isNameChar c = true) : c ∉ ['"', '\\', '$', '`'] := by
  intro h
  simp only [List.mem_cons, List.not_mem_nil, or_false] at h
  rcases h with rfl | rfl | rfl | rfl <;> cases hc

/-- A value that the lines of a file are read into does not end in a backslash: they have
    none, and the next quotation mark is that of an export. -/
theorem getLast?_ne_of_render (hwf : ∀ e ∈ es, e.WellFormed)
    (hv : v.getLast? ≠ some '\\') (h : readQuoted env .plain v (render es) = some (value, rest)) :
    value.getLast? ≠ some '\\' := by
  induction es generalizing v with
  | nil => cases h
  | cons e es ih =>
    have hes : ∀ e ∈ es, e.WellFormed := fun e he => hwf e (List.mem_cons_of_mem _ he)
    rw [render_cons] at h
    cases e with
    | blank =>
      have hline : readQuoted env .plain (v ++ ['\n']) (render es) = some (value, rest) := h
      exact ih hes (by simp) hline
    | comment text =>
      have htext : (Entry.comment text).WellFormed := hwf _ List.mem_cons_self
      rw [Entry.render_comment, readQuoted_append] at h
      · refine ih hes ?_ h
        rw [← List.append_assoc, List.getLast?_concat]
        decide
      · simp only [List.cons_append, List.forall_mem_cons, List.forall_mem_append]
        refine ⟨by decide, fun c hc hmem => htext.chars c hc ?_, by simp⟩
        simp only [List.mem_cons, List.not_mem_nil, or_false] at hmem ⊢
        tauto
    | assign name text =>
      have htext : (Entry.assign name text).render ++ render es =
          ("export ".toList ++ name ++ ['=']) ++ '"' :: (text ++ '"' :: '\n' :: render es) := by
        simp [Entry.render_assign]
      rw [htext, readQuoted_append, readQuoted_quote] at h
      · cases h
        rw [← List.append_assoc, List.getLast?_concat]
        decide
      · obtain ⟨_, hchars⟩ := hwf (.assign name text) List.mem_cons_self
        simp only [List.forall_mem_append]
        exact ⟨⟨by decide, fun c hc => notMem_of_isNameChar (hchars c hc)⟩, by decide⟩

/-- In a shell whose parameters are inert, a file sets its variables, and does nothing
    else, exactly if the values are inert. -/
theorem source_render_iff (hwf : ∀ e ∈ es, e.WellFormed) (henv : ∀ name, inert (env name) = true) :
    (∃ env', source env (render es) = some (env', assignments es)) ↔
      ∀ p ∈ assignments es, inert p.2 = true := by
  refine ⟨fun h => ?_, fun h => ⟨_, source_render hwf h env⟩⟩
  obtain ⟨env', h⟩ := h
  induction es generalizing env with
  | nil => exact fun p hp => by cases hp
  | cons e es ih =>
    have hes : ∀ e ∈ es, e.WellFormed := fun e he => hwf e (List.mem_cons_of_mem _ he)
    rw [render_cons] at h
    cases e with
    | blank =>
      rw [assignments_blank] at h ⊢
      exact ih hes henv (source_newline.symm.trans h)
    | comment text =>
      have htext : (Entry.comment text).WellFormed := hwf _ List.mem_cons_self
      rw [assignments_comment] at h ⊢
      rw [Entry.render_comment, List.append_assoc, List.singleton_append,
        source_comment htext.notMem] at h
      exact ih hes henv h
    | assign name value =>
      obtain ⟨hname, hchars⟩ := hwf (.assign name value) List.mem_cons_self
      have htext : (Entry.assign name value).render ++ render es =
          "export ".toList ++ name ++ '=' :: '"' :: (value ++ '"' :: '\n' :: render es) := by
        simp [Entry.render_assign]
      rw [assignments_assign] at h ⊢
      rw [htext, source_assign hname hchars] at h
      obtain ⟨⟨value', rest⟩, hread, h⟩ := Option.bind_eq_some_iff.1 h
      split_ifs at h
      obtain ⟨⟨env₁, l⟩, hsource, heq⟩ := Option.map_eq_some_iff.1 h
      obtain ⟨rfl, rfl, rfl⟩ : env₁ = env' ∧ value' = value ∧ l = assignments es := by
        simpa using heq
      -- The export is the first one, so its value is the one that was written.
      have hvalue : inert value' = true := by
        refine inert_of_readQuoted henv (fun v w r hw => ?_) hread
        have hline : readQuoted env .plain (v ++ ['\n']) (render es) = some (w, r) := hw
        exact getLast?_ne_of_render hes (by simp) hline
      have henv' : ∀ n, inert (Function.update env name value' n) = true := fun n => by
        rcases eq_or_ne n name with rfl | hn
        · rwa [Function.update_self]
        · rw [Function.update_of_ne hn]
          exact henv n
      rw [readQuoted_inert hvalue] at hread
      cases hread
      rw [List.forall_mem_cons]
      exact ⟨hvalue, ih hes henv' (source_newline.symm.trans hsource)⟩

/-! ## Shells -/

/-- What sourcing a file comes to: the parameters that it leaves, the exports that are executed,
    and the other commands that are. -/
structure Outcome where
  env : Env
  exports : List (Str × Str)
  others : List Str

/-- Bash: what it does with a file that is no such file is left open. -/
structure Bash where
  run : Env → Str → Option Outcome
  run_of_source : ∀ env file env' l, source env file = some (env', l) →
    run env file = some ⟨env', l, []⟩

/-- A shell that sources no other files. -/
def Bash.reader : Bash where
  run env file := (source env file).map fun p => ⟨p.1, p.2, []⟩
  run_of_source _ _ _ _ h := by rw [h]; rfl

/-- A file of comments and exports, as it can be read here. -/
def isReadable (file : Str) : Bool := (source (fun _ => []) file).isSome

theorem reading_plainNext (v v' : Str) :
    (plainNext v c).map Prod.fst = (plainNext v' c).map Prod.fst := by
  unfold plainNext
  split_ifs <;> rfl

/-- Where the reader is does not depend on the values. -/
theorem reading_next (env env' : Env) (v v' : Str) :
    (next env r v c).map Prod.fst = (next env' r v' c).map Prod.fst := by
  cases r with
  | plain => exact reading_plainNext v v'
  | escape => rfl
  | dollar =>
    rw [next, next]
    split_ifs
    all_goals first | rfl | exact reading_plainNext _ _
  | parameter name =>
    rw [next, next]
    split_ifs
    all_goals first | rfl | exact reading_plainNext _ _
  | braces name =>
    rw [next, next]
    split_ifs <;> rfl

/-- What follows a text in double quotes does not depend on the values. -/
theorem rest_readQuoted (env env' : Env) (v v' : Str) :
    (readQuoted env r v s).map Prod.snd = (readQuoted env' r v' s).map Prod.snd := by
  induction s generalizing r v v' with
  | nil => rfl
  | cons c s ih =>
    rw [readQuoted, readQuoted]
    split_ifs
    · cases r <;> rfl
    · have hnext := reading_next (r := r) (c := c) env env' v v'
      cases h : next env r v c with
      | none =>
        rw [h] at hnext
        rw [Option.map_eq_none_iff.1 hnext.symm]
        rfl
      | some p =>
        rw [h] at hnext
        obtain ⟨p', hp', hr⟩ := Option.map_eq_some_iff.1 hnext.symm
        rw [hp', Option.bind_some, Option.bind_some, hr]
        exact ih _ _

theorem rest_command (env env' : Env) (s : Str) :
    (command env s).map (fun p => p.2.2) = (command env' s).map fun p => p.2.2 := by
  rw [command, command]
  cases exportName s with
  | none => rfl
  | some p =>
    have hrest := rest_readQuoted (r := .plain) (s := p.2) env env' [] []
    rw [Option.bind_some, Option.bind_some]
    cases h : readQuoted env .plain [] p.2 with
    | none =>
      rw [h] at hrest
      rw [Option.map_eq_none_iff.1 hrest.symm]
    | some q =>
      rw [h] at hrest
      obtain ⟨q', hq', hr⟩ := Option.map_eq_some_iff.1 hrest.symm
      rw [hq', Option.bind_some, Option.bind_some, hr]
      split
      · exact congrArg some hr.symm
      · rfl

/-- Whether a file can be read does not depend on the parameters. -/
theorem isSome_source (env : Env) (s : Str) : (source env s).isSome = isReadable s := by
  suffices h : ∀ env env', (source env s).isSome = (source env' s).isSome from h env _
  induction hn : s.length using Nat.strong_induction_on generalizing s with
  | _ n ih =>
    intro env env'
    cases s with
    | nil =>
      rw [source, source]
      rfl
    | cons c s =>
      rw [source, source]
      split_ifs
      · exact ih _ (by rw [← hn]; exact Nat.lt_succ_self _) s rfl env env'
      · refine ih _ ?_ _ rfl env env'
        rw [← hn]
        exact Nat.lt_succ_of_le (List.dropWhile_suffix _).length_le
      · have hrest := rest_command env env' (c :: s)
        split
        · next h =>
          rw [h] at hrest
          rw [Option.map_eq_none_iff.1 hrest.symm]
        · next name value rest h =>
          rw [h] at hrest
          obtain ⟨⟨name', value', rest'⟩, h', hr⟩ := Option.map_eq_some_iff.1 hrest.symm
          obtain rfl : rest' = rest := hr
          rw [h']
          dsimp only
          rw [Option.isSome_map, Option.isSome_map]
          exact ih _ (by rw [← hn]; exact length_of_command h) rest' rfl _ _

/-- A text that ends where its double quotes do. -/
def isText (s : Str) : Bool :=
  (readQuoted (fun _ => []) .plain [] (s ++ ['"'])).map Prod.snd = some []

theorem readQuoted_append_right (h : readQuoted env r v s = some (value, rest)) (t : Str) :
    readQuoted env r v (s ++ t) = some (value, rest ++ t) := by
  induction s generalizing r v with
  | nil => cases h
  | cons c s ih =>
    rw [readQuoted] at h
    rw [List.cons_append, readQuoted]
    split_ifs at h ⊢
    · obtain ⟨w, hw, heq⟩ := Option.map_eq_some_iff.1 h
      cases heq
      rw [hw]
      rfl
    · obtain ⟨p, hp, h⟩ := Option.bind_eq_some_iff.1 h
      rw [hp]
      exact ih h

/-- A file can be read if its values end where their double quotes do. -/
theorem isReadable_render (hwf : ∀ e ∈ es, e.WellFormed)
    (htext : ∀ p ∈ assignments es, isText p.2 = true) : isReadable (render es) = true := by
  suffices h : ∀ env, (source env (render es)).isSome = true from h _
  induction es with
  | nil =>
    intro env
    rw [render, List.flatMap_nil, source]
    rfl
  | cons e es ih =>
    intro env
    have hes : ∀ e ∈ es, e.WellFormed := fun e he => hwf e (List.mem_cons_of_mem _ he)
    rw [render_cons]
    cases e with
    | blank =>
      rw [assignments_blank] at htext
      exact (congrArg _ source_newline).trans (ih hes htext env)
    | comment text =>
      rw [assignments_comment] at htext
      have hline : (Entry.comment text).WellFormed := hwf _ List.mem_cons_self
      rw [Entry.render_comment, List.append_assoc, List.singleton_append,
        source_comment hline.notMem]
      exact ih hes htext env
    | assign name value =>
      rw [assignments_assign, List.forall_mem_cons] at htext
      obtain ⟨hname, hchars⟩ := hwf (.assign name value) List.mem_cons_self
      have hline : (Entry.assign name value).render ++ render es =
          "export ".toList ++ name ++ '=' :: '"' :: (value ++ ['"'] ++ '\n' :: render es) := by
        simp [Entry.render_assign]
      -- The value ends at the quotation mark of its line, whatever the parameters are.
      have hrest := rest_readQuoted (r := .plain) (s := value ++ ['"']) (fun _ => []) env [] []
      rw [of_decide_eq_true htext.1] at hrest
      obtain ⟨⟨value', _⟩, hread, rfl⟩ := Option.map_eq_some_iff.1 hrest.symm
      rw [hline, source_assign hname hchars, readQuoted_append_right hread, Option.bind_some,
        List.nil_append, List.head?_cons, Option.all_some, if_pos (by decide), Option.isSome_map,
        source_newline]
      exact ih hes htext.2 _

end Sourcing
