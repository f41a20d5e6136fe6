import LfsBuilder.Library.Text

/-!
# Here-documents of the shell

How bash expands the text of a here-document without quotes. A backslash is kept
but before the characters that are special; parameters, expansions in braces and
commands are replaced.

* `closing`: where an expansion ends. Inside braces a quotation mark is special
  even in a here-document: what is quoted does not end the expansion;
* `expand_append`, `expand_parameter`, `expand_eq_none`: what becomes of plain text,
  of a parameter, and of braces that do not close.
-/

namespace HereDocument

open Text

/-- What the scan for the end of an expansion is inside of. -/
inductive Context
  | braces
  | parens
  | backquotes
  | doubleQuotes
  | singleQuotes
  deriving DecidableEq

/-- What follows the end of the last of the contexts, if they all end. Single quotes are
    special in commands only. -/
def closing : List Context → Str → Option Str
  | [], s => some s
  | _ :: _, [] => none
  | .singleQuotes :: k, c :: s => closing (if c = '\'' then k else .singleQuotes :: k) s
  | _ :: _, ['\\'] => none
  | x :: k, '\\' :: _ :: s => closing (x :: k) s
  | .backquotes :: k, c :: s => closing (if c = '`' then k else .backquotes :: k) s
  | x :: k, '$' :: '{' :: s => closing (.braces :: x :: k) s
  | x :: k, '$' :: '(' :: s => closing (.parens :: x :: k) s
  | x :: k, '`' :: s => closing (.backquotes :: x :: k) s
  | .doubleQuotes :: k, '"' :: s => closing k s
  | x :: k, '"' :: s => closing (.doubleQuotes :: x :: k) s
  | .braces :: k, '}' :: s => closing k s
  | .parens :: k, ')' :: s => closing k s
  | .parens :: k, '(' :: s => closing (.parens :: .parens :: k) s
  | .parens :: k, '\'' :: s => closing (.singleQuotes :: .parens :: k) s
  | x :: k, _ :: s => closing (x :: k) s

theorem length_of_closing {k : List Context} {s rest : Str} (h : closing k s = some rest) :
    rest.length ≤ s.length := by
  fun_induction closing k s <;> grind

example : closing [.braces] "x:-\"\x7d\"\x7d!".toList = some ['!'] := by decide +kernel

/-! ## Expansion -/

/-- A character that a name can begin with. -/
def isNameStart (c : Char) : Bool := c.isAlpha || c = '_'

/-- A character of a name. -/
def isNameChar (c : Char) : Bool := c.isAlphanum || c = '_'

/-- The parameters with a name of one character that is no letter. -/
def isSpecialParameter (c : Char) : Bool := c.isDigit || c ∈ "@*#?-$!".toList

/-- A piece of a here-document. -/
inductive Token
  | text (t : Str)
  | parameter (name : Str)
  | braces (body : Str)
  | command (body : Str)
  deriving DecidableEq

/-- The piece from its opening to its end in the context `x`, and what follows it. -/
def enclosed (x : Context) (piece : Str → Token) (s : Str) : Option (Token × Str) :=
  (closing [x] s).map fun rest => (piece (s.take (s.length - rest.length - 1)), rest)

/-- The piece that begins with a dollar sign, and what follows it. -/
def dollar : Str → Option (Token × Str)
  | '{' :: s => enclosed .braces .braces s
  | '(' :: s => enclosed .parens .command s
  | c :: s =>
    if isNameStart c then some (.parameter (c :: s.takeWhile isNameChar), s.dropWhile isNameChar)
    else if isSpecialParameter c then some (.parameter [c], s)
    else some (.text ['$'], c :: s)
  | [] => some (.text ['$'], [])

/-- The first piece of `c :: s`, and what follows it. -/
def token (c : Char) (s : Str) : Option (Token × Str) :=
  if c = '\\' then
    match s with
    | [] => some (.text ['\\'], [])
    | d :: s =>
      if d = '\n' then some (.text [], s)
      else if d ∈ ['$', '`', '\\'] then some (.text [d], s)
      else some (.text ['\\', d], s)
  else if c = '`' then enclosed .backquotes .command s
  else if c = '$' then dollar s
  else some (.text [c], s)

theorem length_of_enclosed {x : Context} {piece : Str → Token} {s rest : Str} {t : Token}
    (h : enclosed x piece s = some (t, rest)) : rest.length ≤ s.length := by
  obtain ⟨rest', hrest, heq⟩ := Option.map_eq_some_iff.1 h
  cases heq
  exact length_of_closing hrest

theorem length_of_dollar {s rest : Str} {t : Token} (h : dollar s = some (t, rest)) :
    rest.length ≤ s.length := by
  unfold dollar at h
  split at h
  · exact (length_of_enclosed h).trans (Nat.le_succ _)
  · exact (length_of_enclosed h).trans (Nat.le_succ _)
  · next c s _ _ =>
    have hdrop : (s.dropWhile isNameChar).length ≤ s.length :=
      (List.dropWhile_suffix _).length_le
    split_ifs at h <;> cases h
    · exact hdrop.trans (Nat.le_succ _)
    · exact Nat.le_succ _
    · exact le_rfl
  · cases h
    exact le_rfl

theorem length_of_token {c : Char} {s rest : Str} {t : Token} (h : token c s = some (t, rest)) :
    rest.length ≤ s.length := by
  unfold token at h
  split_ifs at h
  · split at h
    · cases h
      exact le_rfl
    · split_ifs at h <;> cases h <;> exact Nat.le_succ _
  · exact length_of_enclosed h
  · exact length_of_dollar h
  · cases h
    exact le_rfl

/-- What the pieces are replaced by: the values of the parameters, the texts that the
    words of `:-` stand for, and the outputs of the commands. -/
structure Meaning where
  parameter : Str → Str
  word : Str → Str
  output : Str → Str

/-- What a piece becomes. The operator `:-` is the only one that is read. -/
def Meaning.of (m : Meaning) : Token → Option Str
  | .text t => some t
  | .parameter name => some (m.parameter name)
  | .command body => some (m.output body)
  | .braces body =>
    let value := m.parameter (body.takeWhile isNameChar)
    match body.dropWhile isNameChar with
    | [] => some value
    | ':' :: '-' :: word => some (if value = [] then m.word word else value)
    | _ => none

/-- The text of a here-document, expanded; `none` is a bad substitution. -/
def expand (m : Meaning) : Str → Option Str
  | [] => some []
  | c :: s =>
    match _h : token c s with
    | none => none
    | some (t, rest) => (m.of t).bind fun value => (expand m rest).map (value ++ ·)
  termination_by s => s.length
  decreasing_by exact Nat.lt_succ_of_le (length_of_token _h)

variable {m : Meaning} {s u : Str} {c : Char}

/-- The characters that are special in a here-document. -/
def isSpecial (c : Char) : Bool := c ∈ ['\\', '`', '$']

theorem expand_cons {t : Token} {rest : Str} (h : token c s = some (t, rest)) :
    expand m (c :: s) = (m.of t).bind fun value => (expand m rest).map (value ++ ·) := by
  rw [expand]
  split
  · next hnone => cases hnone.symm.trans h
  · next heq =>
    cases heq.symm.trans h
    rfl

theorem expand_append (hu : ∀ c ∈ u, isSpecial c = false) (s : Str) :
    expand m (u ++ s) = (expand m s).map (u ++ ·) := by
  induction u with
  | nil => simp
  | cons c u ih =>
    have hc : c ≠ '\\' ∧ c ≠ '`' ∧ c ≠ '$' := by simpa [isSpecial] using hu c List.mem_cons_self
    have htoken : token c (u ++ s) = some (.text [c], u ++ s) := by
      simp only [token, hc, if_false]
    rw [List.cons_append, expand_cons htoken, ih fun d hd => hu d (List.mem_cons_of_mem _ hd),
      Meaning.of, Option.bind_some, Option.map_map]
    rfl

/-- A parameter is replaced by its value, which is not expanded again. -/
theorem expand_parameter {name : Str} (hc : isNameStart c = true)
    (hname : ∀ d ∈ name, isNameChar d = true) {e : Char} (he : isNameChar e = false) :
    expand m ('$' :: c :: name ++ e :: s) =
      (expand m (e :: s)).map (m.parameter (c :: name) ++ ·) := by
  have hbrace : c ≠ '{' := fun h => by simp [h, isNameStart] at hc
  have hparen : c ≠ '(' := fun h => by simp [h, isNameStart] at hc
  have htoken : token '$' (c :: (name ++ e :: s)) = some (.parameter (c :: name), e :: s) := by
    rw [token, if_neg (by decide), if_neg (by decide), if_pos rfl, dollar, if_pos hc,
      List.takeWhile_append_of_pos hname, List.dropWhile_append_of_pos hname,
      List.takeWhile_cons_of_neg (by simp [he]), List.dropWhile_cons_of_neg (by simp [he]),
      List.append_nil]
    · exact hbrace
    · exact hparen
  rw [List.cons_append, List.cons_append, expand_cons htoken]
  rfl

/-- Braces that do not close are a bad substitution, whatever the values are. -/
theorem expand_eq_none (h : closing [.braces] s = none) : expand m ('$' :: '{' :: s) = none := by
  have htoken : token '$' ('{' :: s) = none := by
    rw [token, if_neg (by decide), if_neg (by decide), if_pos rfl, dollar, enclosed, h,
      Option.map_none]
  rw [expand]
  split
  · rfl
  · next heq => cases heq.symm.trans htoken

end HereDocument
