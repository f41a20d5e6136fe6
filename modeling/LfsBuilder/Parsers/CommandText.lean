import LfsBuilder.Parsers.BuildCommands

/-!
# The lines of a command

What `clean_command` does to the lines of a block. It strips every line and takes a
leading `#` or `$` off, whatever comes after it, and whatever the line is for.

* `cleanCommand_lines_iff`: when a line that has no prompt is only stripped;
* `buildCommand?_hereDocs_iff`: when the bodies of here-documents are kept.
-/

namespace LfsBuilder

open Text Backtracking Markup

variable {s l b a text cmd : Str} {c : Char} {ls ms : List Str}

/-! ## Lines -/

/-- What becomes of a line. -/
def cleanLine (line : Str) : Str := subStart prompt [] (strip line)

theorem cleanCommand_eq_intercalate (text : Str) :
    cleanCommand text = ['\n'].intercalate ((splitlines (strip text)).map cleanLine) := rfl

/-- The line is stripped, or it has a prompt after its white space. -/
theorem cleanLine_cases (line : Str) :
    (cleanLine line = strip line ∧ ∀ c, (strip line).head? = some c → isPrompt c = false) ∨
      ∃ c r, strip line = c :: r ∧ isPrompt c = true ∧ cleanLine line = r.dropWhile isSpace := by
  rw [cleanLine]
  cases hs : strip line with
  | nil => exact .inl ⟨rfl, fun c hc => by cases hc⟩
  | cons c r =>
    rw [subStart_prompt]
    by_cases hc : isPrompt c = true
    · exact .inr ⟨c, r, rfl, hc, if_pos hc⟩
    · refine .inl ⟨if_neg hc, fun d hd => ?_⟩
      cases hd
      simpa using hc

theorem cleanLine_suffix (line : Str) : cleanLine line <:+ strip line := by
  rcases cleanLine_cases line with ⟨h, -⟩ | ⟨c, r, hs, -, h⟩
  · exact h ▸ List.suffix_rfl
  · rw [h, hs]
    exact (List.dropWhile_suffix isSpace).trans (List.suffix_cons c r)

theorem isLineBreak_of_mem_cleanLine (hl : l ∈ splitlines s) :
    ∀ c ∈ cleanLine l, isLineBreak c = false := fun c hc =>
  isLineBreak_of_mem_splitlines hl c
    ((strip_isInfix l).subset ((cleanLine_suffix l).subset hc))

theorem notMem_newline_cleanLine (hl : l ∈ splitlines s) : '\n' ∉ cleanLine l := fun h => by
  have hbreak := isLineBreak_of_mem_cleanLine hl _ h
  cases hbreak

/-- The lines of a command are what becomes of the lines of its text. -/
theorem splitOn_cleanCommand (h : splitlines (strip text) ≠ []) :
    (cleanCommand text).splitOn '\n' = (splitlines (strip text)).map cleanLine := by
  rw [cleanCommand_eq_intercalate]
  refine List.splitOn_intercalate '\n' (fun l hl => ?_) (by simpa using h)
  obtain ⟨line, hline, rfl⟩ := List.mem_map.1 hl
  exact notMem_newline_cleanLine hline

/-- The line begins with a shell prompt: white space or nothing comes after its first
    character. -/
def HasPrompt (line : Str) : Prop :=
  ∃ c r, line = c :: r ∧ isPrompt c = true ∧ ∀ d, r.head? = some d → isSpace d = true

/-- The line begins like a prompt, but with a text right after it. -/
def IsGlued (line : Str) : Prop :=
  ∃ c d r, line = c :: d :: r ∧ isPrompt c = true ∧ isSpace d = false

/-- All lines without a prompt are only stripped, just if none of them begins with `#` or
    `$`. -/
theorem cleanCommand_lines_iff (text : Str) :
    (∀ (i : ℕ) line, (splitlines (strip text))[i]? = some line → ¬HasPrompt (strip line) →
      ((cleanCommand text).splitOn '\n')[i]? = some (strip line)) ↔
    ∀ line ∈ splitlines (strip text), ¬IsGlued (strip line) := by
  have hlines (i : ℕ) (line : Str) (hi : (splitlines (strip text))[i]? = some line) :
      ((cleanCommand text).splitOn '\n')[i]? = some (cleanLine line) := by
    have hne : splitlines (strip text) ≠ [] := List.ne_nil_of_mem (List.mem_of_getElem? hi)
    rw [splitOn_cleanCommand hne, List.getElem?_map, hi, Option.map_some]
  constructor
  · rintro h line hline ⟨c, d, r, hs, hc, hd⟩
    obtain ⟨i, hi⟩ := List.getElem?_of_mem hline
    have hprompt : ¬HasPrompt (strip line) := by
      rintro ⟨c', r', hs', -, hr'⟩
      rw [hs] at hs'
      obtain ⟨rfl, rfl⟩ := List.cons.inj hs'
      rw [hr' d rfl] at hd
      cases hd
    have hclean := h i line hi hprompt
    rw [hlines i line hi, Option.some.injEq] at hclean
    -- The character that begins the line is lost.
    have hlt : (cleanLine line).length < (strip line).length := by
      rw [cleanLine, hs, subStart_prompt, if_pos hc, List.length_cons]
      exact Nat.lt_succ_of_le (List.dropWhile_sublist isSpace).length_le
    rw [hclean] at hlt
    exact lt_irrefl _ hlt
  · intro h i line hi hprompt
    rw [hlines i line hi]
    rcases cleanLine_cases line with ⟨hclean, -⟩ | ⟨c, r, hs, hc, -⟩
    · rw [hclean]
    · refine absurd ⟨c, r, hs, hc, fun d hd => ?_⟩ hprompt
      obtain ⟨r, rfl⟩ := List.head?_eq_some_iff.1 hd
      by_contra hspace
      exact h line (List.mem_of_getElem? hi) ⟨c, d, r, hs, hc, by simpa using hspace⟩

/-- A command that begins with a variable. -/
theorem cleanCommand_lines_variable :
    ¬∀ (i : ℕ) line, (splitlines (strip "$LFS_TGT-gcc --version".toList))[i]? = some line →
      ¬HasPrompt (strip line) →
      ((cleanCommand "$LFS_TGT-gcc --version".toList).splitOn '\n')[i]? = some (strip line) := by
  intro h
  have hprompt : ¬HasPrompt (strip "$LFS_TGT-gcc --version".toList) := by
    rintro ⟨c, r, hs, -, hr⟩
    have hs : '$' :: "LFS_TGT-gcc --version".toList = c :: r := hs
    obtain ⟨rfl, rfl⟩ := List.cons.inj hs
    exact absurd (hr 'L' rfl) (by decide)
  exact absurd (h 0 "$LFS_TGT-gcc --version".toList (by decide +kernel) hprompt) (by decide +kernel)

/-! ## Here-documents -/

/-- What becomes of a text, line by line. -/
def cleanLines (s : Str) : Str := ['\n'].intercalate ((splitlines s).map cleanLine)

theorem cleanCommand_eq_cleanLines (text : Str) : cleanCommand text = cleanLines (strip text) := rfl

/-- The line opens a here-document. -/
def opensHereDoc (line : Str) : Bool :=
  decide ("<< EOF".toList <:+: line) || decide ("<< \"EOF\"".toList <:+: line)

/-- Whether a here-document is open after some lines. -/
def inHereDoc (lines : List Str) : Bool :=
  lines.foldl (fun body line => if body then line ≠ "EOF".toList else opensHereDoc line) false

/-- The text has the line `l` in the body of a here-document, after the text `b` and
    before the text `a`, with a line feed in between. The lines are those of the shell. -/
structure IsBodyLine (text b l a : Str) : Prop where
  text_eq : text = b ++ '\n' :: (l ++ '\n' :: a)
  notMem : '\n' ∉ l
  open_before : inHereDoc (b.splitOn '\n') = true
  ne_close : l ≠ "EOF".toList
  close_after : "EOF".toList ∈ a.splitOn '\n'

/-- The command of a block has each line of a here-document as it is in the block, between
    what becomes of the lines before it and of those after it. -/
def KeepsHereDocs (text : Str) : Prop :=
  ∀ b l a, IsBodyLine text b l a → ∀ cmd, buildCommand? text = some cmd →
    cmd = cleanLines (b.dropWhile isSpace ++ ['\n']) ++
      '\n' :: (l ++ '\n' :: cleanLines (a.rdropWhile isSpace))

/-- A line that is not changed: it has no white space around it, no prompt, and no
    character that ends a line for `splitlines`. -/
structure IsUntouched (line : Str) : Prop where
  isLineBreak : ∀ c ∈ line, isLineBreak c = false
  strip_eq : strip line = line
  isPrompt : ∀ c, line.head? = some c → isPrompt c = false

theorem intercalate_append {sep : Str} (hl : ls ≠ []) (hm : ms ≠ []) :
    sep.intercalate (ls ++ ms) = sep.intercalate ls ++ (sep ++ sep.intercalate ms) := by
  induction ls with
  | nil => exact absurd rfl hl
  | cons l ls ih =>
    rw [List.cons_append, List.intercalate_cons_of_ne_nil (List.append_ne_nil_of_right_ne_nil _ hm)]
    cases ls with
    | nil => rw [List.intercalate_singleton, List.nil_append, List.append_assoc]
    | cons l' ls =>
      rw [ih (List.cons_ne_nil _ _), List.intercalate_cons_cons]
      simp only [List.append_assoc]

theorem splitlines_ne_nil (h : s ≠ []) : splitlines s ≠ [] := linesFrom_ne_nil (.inr h)

/-- What becomes of a text with a line feed in it. -/
theorem cleanLines_append_newline (ha : a ≠ []) :
    cleanLines (s ++ '\n' :: a) = cleanLines (s ++ ['\n']) ++ '\n' :: cleanLines a := by
  rw [cleanLines, splitlines_append_newline, List.map_append, intercalate_append]
  · rfl
  · simpa using splitlines_ne_nil (List.append_ne_nil_of_right_ne_nil s (List.cons_ne_nil _ _))
  · simpa using splitlines_ne_nil ha

theorem strip_of_not_blank (hb : ¬Blank b) (ha : ¬Blank a) :
    strip (b ++ '\n' :: (l ++ '\n' :: a)) =
      b.dropWhile isSpace ++ '\n' :: (l ++ '\n' :: a.rdropWhile isSpace) := by
  obtain ⟨w, c, r, hw, hc, rfl⟩ := (strip_cases b).resolve_left hb
  obtain ⟨v, d, z, -, hd, rfl⟩ := (strip_cases a).resolve_left ha
  have hd : ¬isSpace d = true := by simp [hd]
  have hdrop : (w ++ c :: r).dropWhile isSpace = c :: r := by
    rw [List.dropWhile_append_of_pos hw, List.dropWhile_cons_of_neg (by simp [hc])]
  rw [hdrop, rdropWhile_append_cons hd, List.append_assoc, strip_blank_append hw, List.cons_append,
    strip_cons hc]
  have hsplit : r ++ '\n' :: (l ++ '\n' :: (v ++ d :: z)) =
      (r ++ '\n' :: (l ++ '\n' :: v)) ++ d :: z := by
    simp only [List.append_assoc, List.cons_append]
  rw [hsplit, rdropWhile_append_cons hd]
  simp only [List.append_assoc, List.cons_append]

theorem mem_of_opensHereDoc (h : opensHereDoc l = true) : '<' ∈ l := by
  rcases Bool.or_eq_true_iff.1 h with h | h
  · exact (of_decide_eq_true h).subset (by decide)
  · exact (of_decide_eq_true h).subset (by decide)

theorem mem_of_inHereDoc (h : inHereDoc ls = true) : ∃ l ∈ ls, '<' ∈ l := by
  have hstep : ∀ (body : Bool), ls.foldl
      (fun body line => if body then line ≠ "EOF".toList else opensHereDoc line) body = true →
        body = true ∨ ∃ l ∈ ls, '<' ∈ l := by
    clear h
    induction ls with
    | nil => exact fun body h => .inl h
    | cons l ls ih =>
      intro body h
      rcases ih _ h with hbody | ⟨l', hl', hlt⟩
      · cases body with
        | true => exact .inl rfl
        | false => exact .inr ⟨l, List.mem_cons_self, mem_of_opensHereDoc hbody⟩
      · exact .inr ⟨l', List.mem_cons_of_mem _ hl', hlt⟩
  exact (hstep false h).resolve_left Bool.false_ne_true

/-- What becomes of a block around a line in the body of a here-document. -/
theorem cleanCommand_of_isBodyLine (h : IsBodyLine text b l a) :
    cleanCommand text = cleanLines (b.dropWhile isSpace ++ ['\n']) ++
      '\n' :: (cleanLines (l ++ ['\n']) ++ '\n' :: cleanLines (a.rdropWhile isSpace)) := by
  have hb : ¬Blank b := by
    obtain ⟨line, hline, hlt⟩ := mem_of_inHereDoc h.open_before
    intro hblank
    have hspace := hblank '<' ((of_mem_splitOn b hline).2 hlt)
    cases hspace
  have ha : ¬Blank a := fun hblank => by
    have hspace := hblank 'E' ((of_mem_splitOn a h.close_after).2 (by decide))
    cases hspace
  have ha' : a.rdropWhile isSpace ≠ [] := fun hnil => ha (List.rdropWhile_eq_nil_iff.1 hnil)
  have hl : l ++ '\n' :: a.rdropWhile isSpace ≠ [] :=
    List.append_ne_nil_of_right_ne_nil _ (List.cons_ne_nil _ _)
  rw [cleanCommand_eq_cleanLines, h.text_eq, strip_of_not_blank hb ha,
    cleanLines_append_newline hl, cleanLines_append_newline ha']

theorem mem_intercalate_newline (h : c ∈ ['\n'].intercalate ls) : c = '\n' ∨ ∃ l ∈ ls, c ∈ l := by
  induction ls with
  | nil => cases h
  | cons l ls ih =>
    rw [intercalate_cons, List.mem_append, List.mem_flatMap] at h
    rcases h with h | ⟨l', hl', h⟩
    · exact .inr ⟨l, List.mem_cons_self, h⟩
    · rcases List.mem_cons.1 h with h | h
      · exact .inl h
      · exact .inr ⟨l', List.mem_cons_of_mem _ hl', h⟩

theorem cleanLines_line (hl : ∀ c ∈ l, isLineBreak c = false) :
    cleanLines (l ++ ['\n']) = cleanLine l := by
  have hlines : splitlines (l ++ ['\n']) = [l] := by
    rw [splitlines, linesFrom_append hl, List.nil_append]
    rfl
  rw [cleanLines, hlines, List.map_singleton, List.intercalate_singleton]

/-- A line is kept just if it is one that is not changed. -/
theorem cleanLines_eq_self_iff (hl : '\n' ∉ l) : cleanLines (l ++ ['\n']) = l ↔ IsUntouched l := by
  constructor
  · intro h
    have hbreak : ∀ c ∈ l, isLineBreak c = false := fun c hc => by
      have hmem : c ∈ cleanLines (l ++ ['\n']) := h.symm ▸ hc
      rcases mem_intercalate_newline hmem with rfl | ⟨line, hline, hc'⟩
      · exact absurd hc hl
      · obtain ⟨line', hline', rfl⟩ := List.mem_map.1 hline
        exact isLineBreak_of_mem_cleanLine hline' c hc'
    rw [cleanLines_line hbreak] at h
    have hlen : l.length ≤ (strip l).length :=
      (congrArg List.length h).symm.le.trans (cleanLine_suffix l).length_le
    have hstrip : strip l = l := (strip_isInfix l).eq_of_length_le hlen
    refine ⟨hbreak, hstrip, fun c hc => ?_⟩
    rcases cleanLine_cases l with ⟨-, hprompt⟩ | ⟨d, r, hs, -, hclean⟩
    · exact hprompt c (hstrip.symm ▸ hc)
    · -- A line that loses its prompt is shorter.
      have hlt : (r.dropWhile isSpace).length < (d :: r).length :=
        Nat.lt_succ_of_le (List.dropWhile_sublist isSpace).length_le
      rw [← hclean, ← hs, hstrip, h] at hlt
      exact absurd hlt (lt_irrefl _)
  · intro h
    rw [cleanLines_line h.isLineBreak]
    rcases cleanLine_cases l with ⟨hclean, -⟩ | ⟨c, r, hs, hc, -⟩
    · rw [hclean, h.strip_eq]
    · rw [h.strip_eq] at hs
      rw [h.isPrompt c (by rw [hs]; rfl)] at hc
      cases hc

theorem eq_cleanCommand (h : buildCommand? text = some cmd) : cmd = cleanCommand text := by
  rw [buildCommand?] at h
  split at h
  · exact (Option.some.inj h).symm
  · cases h

/-- The command of a block keeps the bodies of its here-documents just if there is no
    command, or the lines of the bodies are such that no line of them is changed. -/
theorem buildCommand?_hereDocs_iff (text : Str) : KeepsHereDocs text ↔
    Silent text ∨ ∀ b l a, IsBodyLine text b l a → IsUntouched l := by
  constructor
  · intro h
    cases hcmd : buildCommand? text with
    | none => exact .inl (silent_of_eq_none hcmd)
    | some cmd =>
      refine .inr fun b l a hline => (cleanLines_eq_self_iff hline.notMem).1 ?_
      have hkeep := h b l a hline cmd hcmd
      rw [eq_cleanCommand hcmd, cleanCommand_of_isBodyLine hline] at hkeep
      exact List.append_cancel_right (List.cons.inj (List.append_cancel_left hkeep)).2
  · rintro (h | h) b l a hline cmd hcmd
    · rw [h.eq_none] at hcmd
      cases hcmd
    · rw [eq_cleanCommand hcmd, cleanCommand_of_isBodyLine hline,
        (cleanLines_eq_self_iff hline.notMem).2 (h b l a hline)]

/-- A block that writes a file with a comment, as in the book. -/
def hostsBlock : Str :=
  "cat > /etc/hosts << \"EOF\"\n# Begin /etc/hosts\n127.0.0.1 localhost\nEOF".toList

theorem buildCommand?_hosts :
    buildCommand? hostsBlock =
      some "cat > /etc/hosts << \"EOF\"\nBegin /etc/hosts\n127.0.0.1 localhost\nEOF".toList ∧
    ¬KeepsHereDocs hostsBlock := by
  have hcmd : buildCommand? hostsBlock =
      some "cat > /etc/hosts << \"EOF\"\nBegin /etc/hosts\n127.0.0.1 localhost\nEOF".toList := by
    decide +kernel
  have hline : IsBodyLine hostsBlock "cat > /etc/hosts << \"EOF\"".toList
      "# Begin /etc/hosts".toList "127.0.0.1 localhost\nEOF".toList :=
    ⟨by decide +kernel, by decide +kernel, by decide +kernel, by decide +kernel, by decide +kernel⟩
  exact ⟨hcmd, fun h => absurd (h _ _ _ hline _ hcmd) (by decide +kernel)⟩

end LfsBuilder
