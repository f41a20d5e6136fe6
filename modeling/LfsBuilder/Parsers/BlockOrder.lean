import LfsBuilder.Parsers.BuildCommands

/-!
# The order of the commands

From which blocks of a chapter `extract_build_commands` takes its commands, and in
which order, with BeautifulSoup: it asks for the two kinds of blocks one after the
other, and for all elements of each, also for those in other blocks.

* `extractBuildCommands_order_iff`: when the commands are those of the outermost
  blocks, in document order, each once.
-/

namespace LfsBuilder

open Text Markup

variable {soup : Soup} {doc : Content}

/-- A `pre` of the class `userinput`. -/
def isPreBlock (soup : Soup) (e : Element) : Bool :=
  soup.named "pre".toList e && soup.hasClass "userinput".toList e

/-- A `userinput`. -/
def isUserinput (soup : Soup) (e : Element) : Bool := soup.named "userinput".toList e

def isBuildBlock (soup : Soup) (e : Element) : Bool := isPreBlock soup e || isUserinput soup e

/-- `build_blocks` -/
def buildBlocks (soup : Soup) (doc : Content) : List Element :=
  (elements doc).filter (isPreBlock soup) ++ (elements doc).filter (isUserinput soup)

/-- The blocks that are in no other block, in document order. -/
def outerBlocks (soup : Soup) : Content → List Element
  | .nil => []
  | .data _ rest => outerBlocks soup rest
  | .comment _ rest => outerBlocks soup rest
  | .element tag inner space rest =>
    (if isBuildBlock soup ⟨tag, inner, space⟩ then [⟨tag, inner, space⟩]
    else outerBlocks soup inner) ++ outerBlocks soup rest
  | .empty tag rest =>
    (if isBuildBlock soup ⟨tag, .nil, []⟩ then [⟨tag, .nil, []⟩] else []) ++ outerBlocks soup rest

/-- The blocks that are in another block. -/
def innerBlocks (soup : Soup) : Content → List Element
  | .nil => []
  | .data _ rest => innerBlocks soup rest
  | .comment _ rest => innerBlocks soup rest
  | .element tag inner space rest =>
    (if isBuildBlock soup ⟨tag, inner, space⟩ then (elements inner).filter (isBuildBlock soup)
    else innerBlocks soup inner) ++ innerBlocks soup rest
  | .empty _ rest => innerBlocks soup rest

/-- A block with its command, if it has one. -/
def withCommand? (soup : Soup) (e : Element) : Option (Element × Str) :=
  (buildCommand? (soup.text e)).map fun cmd => (e, cmd)

def hasCommand (soup : Soup) (e : Element) : Bool := (buildCommand? (soup.text e)).isSome

/-- The commands that are extracted, each with the block that it is taken from. -/
def extracted (soup : Soup) (doc : Content) : List (Element × Str) :=
  (buildBlocks soup doc).filterMap (withCommand? soup)

theorem extractBuildCommands_eq_map (soup : Soup) (text : Str) :
    extractBuildCommands (some soup) text = (extracted soup (soup.parse text)).map Prod.snd := by
  rw [extracted, List.map_filterMap]
  refine List.filterMap_congr fun e _ => ?_
  rw [withCommand?, Option.map_map]
  exact Option.map_id'.symm

theorem filterMap_withCommand?_inj {es es' : List Element} :
    es.filterMap (withCommand? soup) = es'.filterMap (withCommand? soup) ↔
      es.filter (hasCommand soup) = es'.filter (hasCommand soup) := by
  have hfst (es : List Element) :
      (es.filterMap (withCommand? soup)).map Prod.fst = es.filter (hasCommand soup) := by
    rw [List.map_filterMap, ← List.filterMap_eq_filter]
    refine List.filterMap_congr fun e _ => ?_
    cases h : buildCommand? (soup.text e) <;> simp [withCommand?, hasCommand, Option.guard, h]
  have hfilter (es : List Element) :
      (es.filter (hasCommand soup)).filterMap (withCommand? soup) =
        es.filterMap (withCommand? soup) := by
    rw [List.filterMap_filter]
    refine List.filterMap_congr fun e _ => ?_
    cases h : buildCommand? (soup.text e) <;> simp [withCommand?, hasCommand, h]
  refine ⟨fun h => ?_, fun h => ?_⟩
  · rw [← hfst, h, hfst]
  · rw [← hfilter, h, hfilter]

theorem filter_append_filter_not_iff {α : Type*} {l : List α} {p : α → Bool} :
    l.filter p ++ l.filter (fun x => !p x) = l ↔ l.Pairwise fun x y => p y = true → p x = true := by
  constructor
  · intro h
    rw [← h, List.pairwise_append]
    refine ⟨List.pairwise_filter.2 ?_, List.pairwise_filter.2 ?_, fun x hx y hy _ => ?_⟩
    · exact List.pairwise_of_forall fun x y hx _ _ => hx
    · exact List.pairwise_of_forall fun x y _ hy hpy => by simp [hpy] at hy
    · exact List.of_mem_filter hx
  · intro h
    induction l with
    | nil => rfl
    | cons x l ih =>
      obtain ⟨hx, hl⟩ := List.pairwise_cons.1 h
      by_cases hp : p x = true
      · rw [List.filter_cons_of_pos hp, List.filter_cons_of_neg (by simp [hp]), List.cons_append,
          ih hl]
      · -- Nothing that comes later satisfies `p`.
        have hno : ∀ y ∈ l, ¬p y = true := fun y hy hpy => hp (hx y hy hpy)
        rw [List.filter_cons_of_neg hp, List.filter_eq_nil_iff.2 hno, List.nil_append,
          List.filter_cons_of_pos (by simp [hp]),
          List.filter_eq_self.2 fun y hy => by simpa using hno y hy]

/-! ## Outermost blocks -/

theorem elements_empty {tag : Tag} {rest : Content} :
    elements (.empty tag rest) = ⟨tag, .nil, []⟩ :: elements rest := rfl

/-- The outermost blocks are blocks, and the others are the inner ones. -/
theorem outerBlocks_sublist (p : Element → Bool) (doc : Content) :
    ((outerBlocks soup doc).filter p).Sublist
        (((elements doc).filter (isBuildBlock soup)).filter p) ∧
      (((elements doc).filter (isBuildBlock soup)).filter p).length =
        ((outerBlocks soup doc).filter p).length + ((innerBlocks soup doc).filter p).length := by
  have hcons (e : Element) (es : List Element) : (e :: es).filter p = [e].filter p ++ es.filter p :=
    by
    rw [← List.filter_append, List.singleton_append]
  induction doc with
  | nil => exact ⟨List.Sublist.refl _, rfl⟩
  | data raw rest ih => exact ih
  | comment raw rest ih => exact ih
  | element tag inner space rest ihi ih =>
    obtain ⟨hi, hilen⟩ := ihi
    obtain ⟨h, hlen⟩ := ih
    rw [elements_element, outerBlocks, innerBlocks, ← List.cons_append, List.filter_append,
      List.filter_append, List.filter_append, List.filter_append, List.length_append,
      List.length_append, List.length_append, hlen]
    by_cases hb : isBuildBlock soup ⟨tag, inner, space⟩ = true
    · rw [if_pos hb, if_pos hb, List.filter_cons_of_pos hb,
        hcons _ ((elements inner).filter (isBuildBlock soup)), List.length_append]
      exact ⟨(List.sublist_append_left _ _).append h, by omega⟩
    · rw [if_neg hb, if_neg hb, List.filter_cons_of_neg hb, hilen]
      exact ⟨hi.append h, by omega⟩
  | empty tag rest ih =>
    obtain ⟨h, hlen⟩ := ih
    rw [elements_empty, outerBlocks, innerBlocks, List.filter_append, List.length_append, add_assoc,
      ← hlen]
    by_cases hb : isBuildBlock soup ⟨tag, .nil, []⟩ = true
    · rw [if_pos hb, List.filter_cons_of_pos hb,
        hcons _ ((elements rest).filter (isBuildBlock soup)), List.length_append]
      exact ⟨(List.Sublist.refl _).append h, rfl⟩
    · rw [if_neg hb, List.filter_cons_of_neg hb, List.filter_nil, List.nil_append]
      exact ⟨h, (Nat.zero_add _).symm⟩

/-- The blocks with a command, in document order. -/
def commandBlocks (soup : Soup) (doc : Content) : List Element :=
  ((elements doc).filter (isBuildBlock soup)).filter (hasCommand soup)

/-- No element is a block of both kinds. -/
theorem isUserinput_eq {e : Element} (h : isBuildBlock soup e = true) :
    isUserinput soup e = !isPreBlock soup e := by
  cases hp : isPreBlock soup e with
  | false => rwa [isBuildBlock, hp, Bool.false_or] at h
  | true =>
    rw [isPreBlock, Bool.and_eq_true, Soup.named, decide_eq_true_eq] at hp
    rw [isUserinput, Soup.named, hp.1]
    decide

/-- The blocks with a command, in the order in which they are asked for. -/
theorem filter_buildBlocks (doc : Content) : (buildBlocks soup doc).filter (hasCommand soup) =
    (commandBlocks soup doc).filter (isPreBlock soup) ++
      (commandBlocks soup doc).filter (fun e => !isPreBlock soup e) := by
  rw [buildBlocks, commandBlocks, List.filter_append]
  simp only [List.filter_filter]
  congr 1
  · refine List.filter_congr fun e _ => ?_
    rw [isBuildBlock]
    cases isPreBlock soup e <;> cases hasCommand soup e <;> rfl
  · refine List.filter_congr fun e _ => ?_
    by_cases hb : isBuildBlock soup e = true
    · rw [isUserinput_eq hb, hb]
      cases isPreBlock soup e <;> cases hasCommand soup e <;> rfl
    · rw [Bool.not_eq_true] at hb
      rw [hb, (Bool.or_eq_false_iff.1 hb).2]
      simp

/-- The commands that are returned are those of the outermost blocks, in document order, each
    once, just if no block with a command is in another block, and no `userinput` with a
    command comes before a `pre` with one. -/
theorem extractBuildCommands_order_iff (soup : Soup) (text : Str) :
    extractBuildCommands (some soup) text = (extracted soup (soup.parse text)).map Prod.snd ∧
    (extracted soup (soup.parse text) =
        (outerBlocks soup (soup.parse text)).filterMap (withCommand? soup) ↔
      (∀ e ∈ innerBlocks soup (soup.parse text), buildCommand? (soup.text e) = none) ∧
        (commandBlocks soup (soup.parse text)).Pairwise fun e e' =>
          ¬(isUserinput soup e = true ∧ isPreBlock soup e' = true)) := by
  refine ⟨extractBuildCommands_eq_map soup text, ?_⟩
  generalize soup.parse text = doc
  obtain ⟨hsub, hlen⟩ := @outerBlocks_sublist soup (hasCommand soup) doc
  rw [← commandBlocks] at hsub hlen
  rw [extracted, filterMap_withCommand?_inj, filter_buildBlocks]
  have hinner : (innerBlocks soup doc).filter (hasCommand soup) = [] ↔
      ∀ e ∈ innerBlocks soup doc, buildCommand? (soup.text e) = none := by
    simp [List.filter_eq_nil_iff, hasCommand]
  have horder : (commandBlocks soup doc).Pairwise
      (fun e e' => isPreBlock soup e' = true → isPreBlock soup e = true) ↔
        (commandBlocks soup doc).Pairwise
          fun e e' => ¬(isUserinput soup e = true ∧ isPreBlock soup e' = true) := by
    refine List.Pairwise.iff_of_mem fun {e e'} he _ => ?_
    have hb : isBuildBlock soup e = true := (List.mem_filter.1 (List.mem_filter.1 he).1).2
    rw [isUserinput_eq hb]
    cases isPreBlock soup e <;> cases isPreBlock soup e' <;> simp
  rw [← hinner, ← horder, ← filter_append_filter_not_iff]
  constructor
  · intro h
    have hlength : (commandBlocks soup doc).length =
        ((outerBlocks soup doc).filter (hasCommand soup)).length := by
      rw [← h, List.length_append, ← List.length_eq_length_filter_add]
    refine ⟨List.length_eq_zero_iff.1 (by omega), ?_⟩
    rw [h]
    exact hsub.eq_of_length hlength.symm
  · rintro ⟨hnil, h⟩
    rw [h]
    refine (hsub.eq_of_length ?_).symm
    rw [hlen, hnil, List.length_nil, add_zero]

/-- A chapter in which `make` comes before `make install`, the one in a `userinput`, the other
    in a `pre`. -/
def makeInstallChapter : Content :=
  .element { name := "screen".toList }
    (.element { name := "userinput".toList } (.data "make".toList .nil) [] .nil) [] <|
  .element
    { name := "pre".toList, attrs := [⟨[' '], "class".toList, ['='], '"', "userinput".toList⟩] }
    (.element { name := "userinput".toList } (.data "make install".toList .nil) [] .nil) [] .nil

/-- The commands are out of order, and one is there twice. -/
theorem extractBuildCommands_reordered :
    extractBuildCommands (some (soupOf makeInstallChapter)) (render makeInstallChapter) =
      ["make install".toList, "make".toList, "make install".toList] ∧
    (outerBlocks (soupOf makeInstallChapter) makeInstallChapter).filterMap
        (fun e => buildCommand? ((soupOf makeInstallChapter).text e)) =
      ["make".toList, "make install".toList] := by
  decide +kernel

end LfsBuilder
