import LfsBuilder.Library.Text

/-!
# Patterns of Python

The syntax of the patterns of Python's `re` (of Python 3.11): a pattern is read token by
token, with a stack of the groups that are open, to the tree that its compiler makes of
it (`compile`), or it is an error. The names follow `re._parser`.

Named groups and named characters are left out (`(?P`, `\N`), and so are flags for the
whole pattern, which stand at its start, and the limits of Python on the size and the
depth of a pattern.

* `Pattern`: the tree of a pattern; each node has the flags that are in force there;
* `setFrom`, `bounds`, `escape`, `opening`: the parts of the syntax;
* `run`: all of a pattern.
-/

namespace Sre

open Text

/-! ## Trees -/

/-- The flags of a part of a pattern. -/
structure Flags where
  ignoreCase : Bool
  ascii : Bool
  dotAll : Bool
  multiLine : Bool
  verbose : Bool
  deriving DecidableEq

/-- The classes of characters `\d`, `\s` and `\w`. -/
inductive Category
  | digit
  | space
  | word
  deriving DecidableEq

/-- An item of a set of characters; a character is its code. -/
inductive Item
  | literal (n : ℕ)
  | range (lo hi : ℕ)
  | category (k : Category) (negated : Bool)
  deriving DecidableEq

/-- The places that `^`, `$`, `\A`, `\Z`, `\b` and `\B` stand for. -/
inductive Anchor
  | beginning
  | ending
  | beginningString
  | endString
  | boundary
  | nonBoundary
  deriving DecidableEq

/-- Whether a repetition takes as much as it can, as little, or as much and gives nothing
    back. -/
inductive Kind
  | max
  | min
  | possessive
  deriving DecidableEq

/-- How many characters a pattern may match: at least, and at most, if there is a limit. -/
abbrev Width := ℕ × Option ℕ

/-- A pattern. A look behind has its width, and a reference that of its group. -/
inductive Pattern
  | empty
  | chars (f : Flags) (negated : Bool) (items : List Item)
  | any (f : Flags)
  | anchor (f : Flags) (a : Anchor)
  | seq (p q : Pattern)
  | branch (p q : Pattern)
  | rep (k : Kind) (lo : ℕ) (hi : Option ℕ) (p : Pattern)
  | group (n : Option ℕ) (p : Pattern)
  | atomic (p : Pattern)
  | look (behind : Option ℕ) (negated : Bool) (p : Pattern)
  | ref (f : Flags) (n : ℕ) (w : Width)
  | cond (n : ℕ) (yes no : Pattern)
  deriving DecidableEq

def Pattern.literal (f : Flags) (n : ℕ) : Pattern := .chars f false [.literal n]

/-- The items of a sequence, one after the other. -/
def seqOf (items : List Pattern) : Pattern := items.foldr .seq .empty

/-- Several sequences, of which one is to match. -/
def branchOf : List (List Pattern) → Pattern
  | [] => .empty
  | [items] => seqOf items
  | items :: alternatives => .branch (seqOf items) (branchOf alternatives)

/-- `getwidth` -/
def Pattern.width : Pattern → Width
  | .empty => (0, some 0)
  | .chars .. => (1, some 1)
  | .any _ => (1, some 1)
  | .anchor .. => (0, some 0)
  | .seq p q => (p.width.1 + q.width.1, p.width.2.bind fun i => q.width.2.map (i + ·))
  | .branch p q => (min p.width.1 q.width.1, p.width.2.bind fun i => q.width.2.map (max i))
  | .rep _ lo hi p =>
    (lo * p.width.1,
      match hi, p.width.2 with
      | some hi, some i => some (hi * i)
      | some 0, none => some 0
      | none, some 0 => some 0
      | _, _ => none)
  | .group _ p => p.width
  | .atomic p => p.width
  | .look .. => (0, some 0)
  | .ref _ _ w => w
  | .cond _ yes no =>
    (min yes.width.1 no.width.1, yes.width.2.bind fun i => no.width.2.map (max i))

/-! ## Tokens -/

/-- A character of a pattern, or one with a backslash before it. -/
inductive Token
  | plain (c : Char)
  | escaped (c : Char)
  deriving DecidableEq

/-- The tokens of a pattern, which does not end with a backslash. -/
def tokens : Str → Option (List Token)
  | [] => some []
  | ['\\'] => none
  | '\\' :: c :: s => (tokens s).map (.escaped c :: ·)
  | c :: s => (tokens s).map (.plain c :: ·)

theorem tokens_append {w s : Str} {ts : List Token} (h : tokens w = some ts) :
    tokens (w ++ s) = (tokens s).map (ts ++ ·) := by
  induction w using tokens.induct generalizing ts with
  | case1 =>
    obtain rfl := Option.some.inj h
    exact Option.map_id'.symm
  | case2 => cases h
  | case3 c w ih =>
    rw [tokens] at h
    obtain ⟨ts, hts, rfl⟩ := Option.map_eq_some_iff.1 h
    rw [List.cons_append, List.cons_append, tokens, ih hts, Option.map_map]
    rfl
  | case4 c w hnil hcons ih =>
    have hplain : c ≠ '\\' := fun hc => by
      cases w with
      | nil => exact hnil hc rfl
      | cons d w => exact hcons d w hc rfl
    rw [tokens] at h
    · obtain ⟨ts, hts, rfl⟩ := Option.map_eq_some_iff.1 h
      rw [List.cons_append, tokens, ih hts, Option.map_map]
      · rfl
      · exact fun hc => absurd hc hplain
      · exact fun _ _ hc => absurd hc hplain
    · exact hnil
    · exact hcons

/-- `getwhile` -/
def getwhile : ℕ → (Char → Bool) → List Token → Str
  | n + 1, p, .plain c :: ts => if p c then c :: getwhile n p ts else []
  | _, _, _ => []

def isOct (c : Char) : Bool := '0' ≤ c && c ≤ '7'

def isHex (c : Char) : Bool := c.isDigit || 'a' ≤ c && c ≤ 'f' || 'A' ≤ c && c ≤ 'F'

/-- The value of a digit. -/
def digit (c : Char) : ℕ :=
  if c.isDigit then c.toNat - 48 else if c.isLower then c.toNat - 87 else c.toNat - 55

def number (base : ℕ) (digits : Str) : ℕ := digits.foldl (fun n c => base * n + digit c) 0

/-- The limit of the bounds of a repetition. -/
def maxRepeat : ℕ := 2 ^ 32 - 1

/-! ## Escapes

Each of these gives what it has read, and how many tokens more than the first. -/

/-- `ESCAPES` -/
def escapes : Char → Option ℕ
  | 'a' => some 7
  | 'b' => some 8
  | 'f' => some 12
  | 'n' => some 10
  | 'r' => some 13
  | 't' => some 9
  | 'v' => some 11
  | '\\' => some 92
  | _ => none

/-- The sets among `CATEGORIES`. -/
def categories : Char → Option Item
  | 'd' => some (.category .digit false)
  | 'D' => some (.category .digit true)
  | 's' => some (.category .space false)
  | 'S' => some (.category .space true)
  | 'w' => some (.category .word false)
  | 'W' => some (.category .word true)
  | _ => none

/-- The places among `CATEGORIES`. -/
def anchors : Char → Option Anchor
  | 'A' => some .beginningString
  | 'b' => some .boundary
  | 'B' => some .nonBoundary
  | 'Z' => some .endString
  | _ => none

/-- How many hexadecimal digits an escape has. -/
def hexDigits : Char → Option ℕ
  | 'x' => some 2
  | 'u' => some 4
  | 'U' => some 8
  | _ => none

def hexEscape (n : ℕ) (ts : List Token) : Option (ℕ × ℕ) :=
  let digits := getwhile n isHex ts
  if digits.length = n ∧ number 16 digits < 0x110000 then some (number 16 digits, n) else none

/-- `_class_escape` -/
def classEscape (c : Char) (ts : List Token) : Option (Item × ℕ) :=
  match escapes c, categories c, hexDigits c with
  | some n, _, _ => some (.literal n, 0)
  | _, some item, _ => some (item, 0)
  | _, _, some n => (hexEscape n ts).map fun r => (.literal r.1, r.2)
  | none, none, none =>
    if isOct c then
      let digits := c :: getwhile 2 isOct ts
      if number 8 digits ≤ 0o377 then some (.literal (number 8 digits), digits.length - 1) else none
    else if c.isDigit || c.isAlpha then none
    else some (.literal c.toNat, 0)

/-! ## Sets -/

/-- A character or a class in a set. -/
def setCode : Token → List Token → Option (Item × ℕ)
  | .plain c, _ => some (.literal c.toNat, 0)
  | .escaped c, ts => classEscape c ts

/-- What stands in a set from a token on: a range, or a single item. -/
def setItem (t : Token) (ts : List Token) : Option (List Item × ℕ) := do
  let (item, n) ← setCode t ts
  match ts.drop n with
  | [.plain '-'] => none
  | .plain '-' :: .plain ']' :: _ => return ([item, .literal '-'.toNat], n + 1)
  | .plain '-' :: t' :: ts' =>
    let (item', n') ← setCode t' ts'
    match item, item' with
    | .literal lo, .literal hi => if lo ≤ hi then return ([.range lo hi], n + 2 + n') else none
    | _, _ => none
  | _ => return ([item], n)

/-- The items of a set up to its end, after `skip` tokens. -/
def setFrom : (skip : ℕ) → List Item → List Token → Option (List Item × ℕ)
  | _, _, [] => none
  | skip + 1, items, _ :: ts => (setFrom skip items ts).map fun r => (r.1, r.2 + 1)
  | 0, items, t :: ts =>
    if t = .plain ']' ∧ items ≠ [] then some (items, 1)
    else (setItem t ts).bind fun r =>
      (setFrom r.2 (items ++ r.1) ts).map fun r => (r.1, r.2 + 1)

/-- A set, after its bracket. -/
def set (f : Flags) : List Token → Option (Pattern × ℕ)
  | .plain '^' :: ts => (setFrom 0 [] ts).map fun r => (.chars f true r.1, r.2 + 1)
  | ts => (setFrom 0 [] ts).map fun r => (.chars f false r.1, r.2)

/-! ## Repetitions -/

/-- The bounds in braces, after the first brace, unless that is just a character. -/
def bounds (ts : List Token) : Option (Str × Str × ℕ) :=
  let lo := getwhile ts.length Char.isDigit ts
  match ts.drop lo.length with
  | .plain '}' :: _ => if lo = [] then none else some (lo, lo, lo.length + 1)
  | .plain ',' :: ts' =>
    let hi := getwhile ts'.length Char.isDigit ts'
    match ts'.drop hi.length with
    | .plain '}' :: _ => some (lo, hi, lo.length + hi.length + 2)
    | _ => none
  | _ => none

/-- The bounds as numbers, in the limits. -/
def limits (lo hi : Str) : Option (ℕ × Option ℕ) :=
  let least := number 10 lo
  let most := if hi = [] then none else some (number 10 hi)
  if least < maxRepeat ∧ most.all (fun n => n < maxRepeat ∧ least ≤ n) then some (least, most)
  else none

/-- The kind of a repetition, from what follows it. -/
def kindOf : List Token → Kind × ℕ
  | .plain '?' :: _ => (.min, 1)
  | .plain '+' :: _ => (.possessive, 1)
  | _ => (.max, 0)

/-- A repetition of the item before it. -/
def repeated (lo : ℕ) (hi : Option ℕ) (n : ℕ) (ts : List Token) :
    List Pattern → Option (List Pattern × ℕ)
  | [] => none
  | .anchor .. :: _ => none
  | .rep .. :: _ => none
  | p :: items => some (.rep (kindOf (ts.drop n)).1 lo hi p :: items, n + (kindOf (ts.drop n)).2)

/-! ## Groups -/

/-- What a bracket opens. A look behind has what held of references before it. -/
inductive Opening
  | whole
  | group (n : Option ℕ)
  | atomic
  | ahead (negated : Bool)
  | behind (negated : Bool) (outer : Option ℕ)
  | cond (n : ℕ)

/-- A part of a pattern that is open: its alternatives and its items, the last one first. -/
structure Frame where
  opening : Opening
  flags : Flags
  alternatives : List (List Pattern) := []
  items : List Pattern := []

/-- The state of the parser: the part it is in and those around it, how many groups it has
    opened, the widths of those that it has closed, the groups of conditions, and the
    first group that the look behind it is in cannot refer to. -/
structure State where
  frame : Frame
  outer : List Frame := []
  groups : ℕ := 0
  closed : List (ℕ × Width) := []
  conds : List ℕ := []
  lookbehind : Option ℕ := none

namespace State

def push (st : State) (p : Pattern) : State :=
  { st with frame := { st.frame with items := p :: st.frame.items } }

/-- `|` -/
def alternative (st : State) : State :=
  { st with frame := { st.frame with
      alternatives := st.frame.items.reverse :: st.frame.alternatives
      items := [] } }

/-- The alternatives of the part that is open, as they are written. -/
def alternatives (st : State) : List (List Pattern) :=
  (st.frame.items.reverse :: st.frame.alternatives).reverse

/-- `(` -/
def enter (st : State) (o : Opening) (f : Flags) : State :=
  { st with frame := { opening := o, flags := f }, outer := st.frame :: st.outer }

/-- `)` -/
def close (st : State) : Option State :=
  match st.outer with
  | [] => none
  | frame :: outer =>
    let st' := { st with frame, outer }
    let p := branchOf st.alternatives
    match st.frame.opening with
    | .whole => none
    | .group none => some (st'.push (.group none p))
    | .group (some n) => some { st'.push (.group (some n) p) with
        closed := (n, p.width) :: st.closed }
    | .atomic => some (st'.push (.atomic p))
    | .ahead negated => some (st'.push (.look none negated p))
    | .behind negated outer =>
      if p.width.2 = some p.width.1 ∧ p.width.1 < 2 ^ 32 then
        some { st'.push (.look (some p.width.1) negated p) with lookbehind := outer }
      else none
    | .cond n =>
      match st.alternatives with
      | [yes] => some (st'.push (.cond n (seqOf yes) .empty))
      | [yes, no] => some (st'.push (.cond n (seqOf yes) (seqOf no)))
      | _ => none

/-- `checklookbehindgroup` -/
def canRefer (st : State) (n : ℕ) : Bool := st.lookbehind.all fun m =>
  (st.closed.lookup n).isSome && decide (n < m)

end State

/-- A reference to a group that is closed. -/
def reference (st : State) (n : ℕ) : Option Pattern :=
  match st.closed.lookup n with
  | some w => if st.canRefer n then some (.ref st.frame.flags n w) else none
  | none => none

/-- `_escape` -/
def escape (st : State) (c : Char) (ts : List Token) : Option (Pattern × ℕ) :=
  let f := st.frame.flags
  match anchors c, categories c, escapes c, hexDigits c with
  | some a, _, _, _ => some (.anchor f a, 0)
  | _, some item, _, _ => some (.chars f false [item], 0)
  | _, _, some n, _ => some (.literal f n, 0)
  | _, _, _, some n => (hexEscape n ts).map fun r => (.literal f r.1, r.2)
  | none, none, none, none =>
    let octal := getwhile 2 isOct ts
    if c = '0' then some (.literal f (number 8 octal), octal.length)
    else if isOct c && octal.length = 2 then
      if number 8 (c :: octal) ≤ 0o377 then some (.literal f (number 8 (c :: octal)), 2) else none
    else if c.isDigit then
      let digits := c :: getwhile 1 Char.isDigit ts
      (reference st (number 10 digits)).map (·, digits.length - 1)
    else if c.isAlpha then none
    else some (.literal f c.toNat, 0)

/-- `int`, for a text without a minus sign; the digits may be in groups. -/
def intOf (decimal : Char → Option ℕ) (s : Str) : Option ℕ :=
  let digits := (strip s).dropWhile (· = '+')
  if (strip s).length ≤ digits.length + 1 ∧ ∀ g ∈ digits.splitOn '_', g ≠ [] then
    (digits.filter (· ≠ '_')).foldlM (fun n c => (decimal c).map (10 * n + ·)) 0
  else none

/-- `getuntil`, for a name in brackets. -/
def getuntil : List Token → Option Str
  | [] => none
  | .plain ')' :: _ => some []
  | .plain c :: ts => (getuntil ts).map (c :: ·)
  | .escaped c :: ts => (getuntil ts).map ('\\' :: c :: ·)

/-- The flags that `add` sets and `del` clears. -/
def Flags.change (f : Flags) (add del : Str) : Flags where
  ignoreCase := (f.ignoreCase || 'i' ∈ add) && 'i' ∉ del
  ascii := (f.ascii || 'a' ∈ add) && 'u' ∉ add
  dotAll := (f.dotAll || 's' ∈ add) && 's' ∉ del
  multiLine := (f.multiLine || 'm' ∈ add) && 'm' ∉ del
  verbose := (f.verbose || 'x' ∈ add) && 'x' ∉ del

/-- `_parse_flags`, for a part of a pattern. -/
def parseFlags (f : Flags) (ts : List Token) : Option (Flags × ℕ) :=
  let add := getwhile ts.length (· ∈ "aimsux".toList) ts
  if 'a' ∈ add ∧ 'u' ∈ add then none
  else match ts.drop add.length with
    | .plain ':' :: _ => if add = [] then none else some (f.change add [], add.length + 1)
    | .plain '-' :: ts' =>
      let del := getwhile ts'.length (· ∈ "imsx".toList) ts'
      match ts'.drop del.length with
      | .plain ':' :: _ =>
        if del = [] ∨ ∃ c ∈ del, c ∈ add then none
        else some (f.change add del, add.length + del.length + 2)
      | _ => none
    | _ => none

/-- What a bracket opens, from what follows it. -/
def opening (decimal : Char → Option ℕ) (st : State) : List Token → Option (State × ℕ)
  | .plain '?' :: ts =>
    let f := st.frame.flags
    match ts with
    | .plain ':' :: _ => some (st.enter (.group none) f, 2)
    | .plain '>' :: _ => some (st.enter .atomic f, 2)
    | .plain '=' :: _ => some (st.enter (.ahead false) f, 2)
    | .plain '!' :: _ => some (st.enter (.ahead true) f, 2)
    | .plain '<' :: .plain c :: _ =>
      if c = '=' ∨ c = '!' then
        some ({ st.enter (.behind (c = '!') st.lookbehind) f with
          lookbehind := st.lookbehind.or (some (st.groups + 1)) }, 3)
      else none
    | .plain '#' :: ts =>
      -- A comment, up to the next bracket.
      let comment := ts.takeWhile (· ≠ .plain ')')
      if comment.length < ts.length then some (st, comment.length + 3) else none
    | .plain '(' :: ts => do
      let name ← getuntil ts
      let n ← intOf decimal name
      if n = 0 ∨ ¬st.canRefer n then none
      else return ({ st.enter (.cond n) f with conds := n :: st.conds },
        (ts.takeWhile (· ≠ .plain ')')).length + 3)
    | ts => (parseFlags f ts).map fun r => (st.enter (.group none) r.1, r.2 + 1)
  | _ => some ({ st.enter (.group (some (st.groups + 1))) st.frame.flags with
      groups := st.groups + 1 }, 0)

/-! ## Patterns -/

/-- The white space that `(?x)` skips. -/
def isBlank (c : Char) : Bool := c ∈ " \t\n\r\x0b\x0c".toList

/-- One round of `_parse`, at a token: the next state, and how many tokens of the rest it has
    read. -/
def step (decimal : Char → Option ℕ) (st : State) : Token → List Token → Option (State × ℕ)
  | .escaped c, ts => (escape st c ts).map fun r => (st.push r.1, r.2)
  | .plain c, ts =>
    let f := st.frame.flags
    let repeat? (lo : ℕ) (hi : Option ℕ) (n : ℕ) : Option (State × ℕ) :=
      (repeated lo hi n ts st.frame.items).map fun r =>
        ({ st with frame := { st.frame with items := r.1 } }, r.2)
    if f.verbose && isBlank c then some (st, 0)
    else if f.verbose && c = '#' then
      some (st, (ts.takeWhile (· ≠ .plain '\n')).length + 1)
    else match c with
      | '|' => some (st.alternative, 0)
      | ')' => st.close.map (·, 0)
      | '[' => (set f ts).map fun r => (st.push r.1, r.2)
      | '?' => repeat? 0 (some 1) 0
      | '*' => repeat? 0 none 0
      | '+' => repeat? 1 none 0
      | '{' =>
        match bounds ts with
        | some (lo, hi, n) => (limits lo hi).bind fun r => repeat? r.1 r.2 n
        | none => some (st.push (.literal f c.toNat), 0)
      | '.' => some (st.push (.any f), 0)
      | '(' => opening decimal st ts
      | '^' => some (st.push (.anchor f .beginning), 0)
      | '$' => some (st.push (.anchor f .ending), 0)
      | c => some (st.push (.literal f c.toNat), 0)

/-- All rounds, after `skip` tokens. -/
def run (decimal : Char → Option ℕ) : (skip : ℕ) → List Token → State → Option State
  | _, [], st => some st
  | skip + 1, _ :: ts, st => run decimal skip ts st
  | 0, t :: ts, st => (step decimal st t ts).bind fun r => run decimal r.2 ts r.1

/-- A pattern that has been compiled, with the number of its groups. -/
structure Compiled where
  alternatives : List (List Pattern)
  groups : ℕ
  deriving DecidableEq

def Compiled.pattern (c : Compiled) : Pattern := branchOf c.alternatives

/-- `re.compile` -/
def compile (decimal : Char → Option ℕ) (f : Flags) (s : Str) : Option Compiled := do
  let ts ← tokens s
  let st ← run decimal 0 ts { frame := { opening := .whole, flags := f } }
  if st.outer.isEmpty ∧ ∀ n ∈ st.conds, n ≤ st.groups then return ⟨st.alternatives, st.groups⟩
  else none

theorem alternatives_ne_nil {decimal : Char → Option ℕ} {f : Flags} {s : Str} {c : Compiled}
    (h : compile decimal f s = some c) : c.alternatives ≠ [] := by
  simp only [compile, Option.bind_eq_bind, Option.bind_eq_some_iff] at h
  obtain ⟨ts, -, st, -, h⟩ := h
  split at h
  · obtain rfl := Option.some.inj h
    simp [State.alternatives]
  · cases h

end Sre
