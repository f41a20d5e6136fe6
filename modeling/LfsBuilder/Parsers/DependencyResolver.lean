import LfsBuilder.Parsers.LfsParser
import LfsBuilder.Parsers.TopologicalSort

/-!
# From the book to a build order

`build_dependency_graph` of `dependency_resolver.py`, which looks up every requested
package in the book, and the command line, which sorts the graph and prints the
order. A section is found whatever the letter case of the name that is requested;
an edge is followed only if its name is requested in the same spelling.

* `buildDependencyGraph_ok`: the graph holds, for every requested package, what
  its section lists;
* `buildDependencyGraph_eq_resolveDependencies`: that is what `resolve_dependencies`
  returns for it;
* `emits_of_cli`: the printed order is a depth-first emission of the request;
* `cli_orders_iff`: when all orders that are printed respect the names up to
  letter case;
* `cli_returns_iff`: when an order is printed, if only packages that list
  themselves are on a cycle.
-/

namespace LfsBuilder

open Text Backtracking Markup DepthFirst Relation

/-- The body of the loop of `build_dependency_graph`: the entry of a package, or none
    where the loop goes on without one. -/
def entry (py : Python) : Option Soup → (text pkg : Str) → Except LookupError (Option (List Str))
  | some soup, text, pkg =>
    match (elements (soup.parse text)).dropWhile fun b => !isBridge py.letters soup pkg b with
    | [] => .ok none
    | _ :: next =>
      match next.find? (isDependsList soup) with
      | none => .ok none
      | some seglist =>
        match (elements seglist.inner).find? (soup.named "seg".toList) with
        | none => .ok none
        | some seg => .ok (some (splitDeps py.letters (soup.text seg)))
  | none, text, pkg => do
    match ← searchSection py pkg text with
    | none => return none
    | some depsText => return some (splitDeps py.letters depsText)

/-- `build_dependency_graph`, on the text of the file, if it exists. -/
def buildDependencyGraph (py : Python) (soup : Option Soup) (packages : List Str)
    (file : Option Str) : Except LookupError (Dict Str (List Str)) :=
  let graph := Dict.fromKeys packages []
  match file with
  | none => .ok graph
  | some text =>
    packages.foldlM (fun graph pkg => do
      match ← entry py soup text pkg with
      | none => return graph
      | some deps => return graph.set pkg deps) graph

/-- `_cli`: the order that is printed, with `calls` nested calls allowed. -/
def cli (py : Python) (soup : Option Soup) (calls : ℕ) (packages : List Str) (file : Option Str) :
    Except (LookupError ⊕ Raised Str) (List Str) := do
  let graph ← (buildDependencyGraph py soup packages file).mapError Sum.inl
  (topologicalSort calls graph).mapError Sum.inr

/-! ## The graph -/

variable {py : Python} {soup : Option Soup} {packages : List Str} {file : Option Str}
  {graph : Dict Str (List Str)}

/-- What the section that is found for a package lists. -/
def listed (py : Python) (soup : Option Soup) (file : Option Str) (pkg : Str) :
    Except LookupError (List Str) :=
  match file with
  | none => .ok []
  | some text => (entry py soup text pkg).map fun deps => deps.getD []

/-- The step of the loop for the package `p`, with the entry that `f` finds. -/
def fill (f : Str → Except LookupError (Option (List Str))) (g : Dict Str (List Str)) (p : Str) :
    Except LookupError (Dict Str (List Str)) := do
  match ← f p with
  | none => return g
  | some deps => return g.set p deps

theorem fill_ok {f : Str → Except LookupError (Option (List Str))} {g g' : Dict Str (List Str)}
    {p : Str} (hp : p ∈ g) (h : fill f g p = .ok g') :
    g'.keys = g.keys ∧ (∃ r, f p = .ok r ∧ g'.getD p [] = r.getD (g.getD p [])) ∧
      ∀ q ≠ p, g'.getD q [] = g.getD q [] := by
  rw [fill] at h
  match hf : f p with
  | .error _ =>
    rw [hf] at h
    cases h
  | .ok none =>
    rw [hf] at h
    cases h
    exact ⟨rfl, ⟨none, rfl, rfl⟩, fun _ _ => rfl⟩
  | .ok (some deps) =>
    rw [hf] at h
    cases h
    refine ⟨Dict.keys_set_of_mem hp deps, ⟨some deps, rfl, ?_⟩, fun q hq => ?_⟩
    · rw [Dict.getD_set, if_pos rfl, Option.getD_some]
    · rw [Dict.getD_set, if_neg hq]

/-- The loop keeps the keys, and changes the entries of its packages only. -/
theorem foldlM_fill {f : Str → Except LookupError (Option (List Str))} {ps : List Str}
    {g g' : Dict Str (List Str)} (hg : ∀ p ∈ ps, p ∈ g) (h : ps.foldlM (fill f) g = .ok g') :
    g'.keys = g.keys ∧ (∀ p ∈ ps, ∃ r, f p = .ok r ∧ g'.getD p [] = r.getD (g.getD p [])) ∧
      ∀ q ∉ ps, g'.getD q [] = g.getD q [] := by
  induction ps generalizing g with
  | nil =>
    cases h
    exact ⟨rfl, fun _ hp => absurd hp List.not_mem_nil, fun _ _ => rfl⟩
  | cons p ps ih =>
    rw [List.foldlM_cons] at h
    match hp : fill f g p with
    | .error _ =>
      rw [hp] at h
      cases h
    | .ok g₁ =>
      rw [hp] at h
      obtain ⟨hkeys₁, ⟨r, hr, hget₁⟩, hother₁⟩ := fill_ok (hg p List.mem_cons_self) hp
      have hg₁ : ∀ q ∈ ps, q ∈ g₁ := fun q hq =>
        show q ∈ g₁.keys from hkeys₁ ▸ hg q (List.mem_cons_of_mem _ hq)
      obtain ⟨hkeys, hget, hother⟩ := ih hg₁ h
      refine ⟨hkeys.trans hkeys₁, fun q hq => ?_, fun q hq => ?_⟩
      · by_cases hqps : q ∈ ps
        · obtain ⟨r', hr', hq'⟩ := hget q hqps
          refine ⟨r', hr', hq'.trans ?_⟩
          rcases eq_or_ne q p with rfl | hne
          · -- A package that is requested twice has the same entry both times.
            cases hr.symm.trans hr'
            rw [hget₁]
            cases r <;> rfl
          · rw [hother₁ q hne]
        · obtain rfl : q = p := (List.mem_cons.1 hq).resolve_right hqps
          exact ⟨r, hr, (hother q hqps).trans hget₁⟩
      · rw [List.mem_cons, not_or] at hq
        rw [hother q hq.2, hother₁ q hq.1]

theorem foldlM_fill_error {f : Str → Except LookupError (Option (List Str))} {ps : List Str}
    {g : Dict Str (List Str)} {e : LookupError} (h : ps.foldlM (fill f) g = .error e) :
    ∃ p ∈ ps, f p = .error e := by
  induction ps generalizing g with
  | nil => cases h
  | cons p ps ih =>
    rw [List.foldlM_cons, fill] at h
    match hp : f p with
    | .error _ =>
      rw [hp] at h
      cases h
      exact ⟨p, List.mem_cons_self, hp⟩
    | .ok none =>
      rw [hp] at h
      obtain ⟨q, hq, he⟩ := ih h
      exact ⟨q, List.mem_cons_of_mem _ hq, he⟩
    | .ok (some _) =>
      rw [hp] at h
      obtain ⟨q, hq, he⟩ := ih h
      exact ⟨q, List.mem_cons_of_mem _ hq, he⟩

/-- The graph holds what is listed for the requested packages. -/
theorem buildDependencyGraph_ok (h : buildDependencyGraph py soup packages file = .ok graph) :
    graph.keys = (Dict.fromKeys packages ([] : List Str)).keys ∧
      ∀ p ∈ packages, listed py soup file p = .ok (graph.getD p []) := by
  match file with
  | none =>
    cases h
    exact ⟨rfl, fun p _ => by rw [Dict.getD_fromKeys, listed]⟩
  | some text =>
    obtain ⟨hkeys, hget, _⟩ := foldlM_fill (f := entry py soup text)
      (fun p hp => Dict.mem_fromKeys.2 hp) h
    refine ⟨hkeys, fun p hp => ?_⟩
    obtain ⟨r, hr, hget⟩ := hget p hp
    rw [listed, hr, hget, Dict.getD_fromKeys]
    rfl

theorem buildDependencyGraph_error {e : LookupError}
    (h : buildDependencyGraph py soup packages file = .error e) :
    ∃ p ∈ packages, listed py soup file p = .error e := by
  match file with
  | none => cases h
  | some text =>
    obtain ⟨p, hp, he⟩ := foldlM_fill_error (f := entry py soup text) h
    exact ⟨p, hp, by rw [listed, he]; rfl⟩

/-! ## The two lookups -/

/-- The body of the loop finds what `resolve_dependencies` finds. -/
theorem listed_eq_resolveDependencies (py : Python) (soup : Option Soup) (file : Option Str)
    (pkg : Str) : listed py soup file pkg = resolveDependencies py soup pkg file := by
  cases file with
  | none => cases soup <;> rfl
  | some text =>
    cases soup with
    | none =>
      rw [listed, entry, resolveDependencies]
      cases searchSection py pkg text with
      | error e => rfl
      | ok m => cases m <;> rfl
    | some soup =>
      rw [listed, entry, resolveDependencies]
      cases (elements (soup.parse text)).dropWhile fun b => !isBridge py.letters soup pkg b with
      | nil => rfl
      | cons b next =>
        dsimp only
        cases next.find? (isDependsList soup) with
        | none => rfl
        | some seglist =>
          dsimp only
          cases (elements seglist.inner).find? (soup.named "seg".toList) <;> rfl

/-- The graph has the requested packages as its keys, each with what
    `resolve_dependencies` returns for it, whatever else is requested. -/
theorem buildDependencyGraph_eq_resolveDependencies
    (h : buildDependencyGraph py soup packages file = .ok graph) :
    graph.keys = packages.eraseDups ∧
    (∀ p ∈ packages, ∃ deps, graph.get? p = some deps ∧
      resolveDependencies py soup p file = .ok deps) ∧
    ∀ packages' graph', buildDependencyGraph py soup packages' file = .ok graph' →
      ∀ p ∈ packages, p ∈ packages' → graph'.get? p = graph.get? p := by
  have hget {ps : List Str} {g : Dict Str (List Str)}
      (hg : buildDependencyGraph py soup ps file = .ok g) (p : Str) (hp : p ∈ ps) :
      ∃ deps, g.get? p = some deps ∧ resolveDependencies py soup p file = .ok deps := by
    obtain ⟨hkeys, hlisted⟩ := buildDependencyGraph_ok hg
    have hmem : p ∈ g := by
      rw [Dict.mem_def, hkeys]
      exact Dict.mem_fromKeys.2 hp
    exact ⟨g.getD p [], Dict.get?_of_mem hmem [], listed_eq_resolveDependencies py soup file p ▸
      hlisted p hp⟩
  refine ⟨?_, hget h, fun packages' graph' h' p hp hp' => ?_⟩
  · rw [(buildDependencyGraph_ok h).1, Dict.keys_fromKeys]
  · obtain ⟨deps, hdeps, hresolve⟩ := hget h p hp
    obtain ⟨deps', hdeps', hresolve'⟩ := hget h' p hp'
    rw [hdeps, hdeps', Except.ok.inj (hresolve'.symm.trans hresolve)]

/-- The section of GCC, which lists Binutils. -/
def gccSection : Str :=
  ("<bridgehead>GCC</bridgehead><segmentedlist id=\"gcc-depends\">" ++
    "<seg>Bash and Binutils</seg></segmentedlist>").toList

theorem buildDependencyGraph_eq_gcc :
    ∃ graph, buildDependencyGraph .ascii none ["gcc".toList, "attr".toList, "gcc".toList]
        (some gccSection) = .ok graph ∧ graph.keys = ["gcc".toList, "attr".toList] ∧
      ∃ deps, graph.get? "gcc".toList = some deps ∧
        resolveDependencies .ascii none "gcc".toList (some gccSection) = .ok deps := by
  have hok : (buildDependencyGraph .ascii none ["gcc".toList, "attr".toList, "gcc".toList]
      (some gccSection)).isOk = true := by decide +kernel
  cases hgraph : buildDependencyGraph .ascii none ["gcc".toList, "attr".toList, "gcc".toList]
      (some gccSection) with
  | error e =>
    rw [hgraph] at hok
    cases hok
  | ok graph =>
    obtain ⟨hkeys, hentries, -⟩ := buildDependencyGraph_eq_resolveDependencies hgraph
    exact ⟨graph, rfl, hkeys.trans (by decide), hentries _ List.mem_cons_self⟩

/-! ## The order -/

/-- The section that is found for the package `p` lists `d`. -/
def Lists (py : Python) (soup : Option Soup) (file : Option Str) (p d : Str) : Prop :=
  ∃ deps, listed py soup file p = .ok deps ∧ d ∈ deps

/-- The requested packages that are listed for a requested package, all as they are spelled. -/
def requested (py : Python) (soup : Option Soup) (packages : List Str) (file : Option Str)
    (p : Str) : List Str :=
  if p ∈ packages then
    match listed py soup file p with
    | .ok deps => deps.filter (· ∈ packages)
    | .error _ => []
  else []

theorem mem_requested {p d : Str} : d ∈ requested py soup packages file p ↔
    p ∈ packages ∧ d ∈ packages ∧ Lists py soup file p d := by
  unfold requested Lists
  split_ifs with hp
  · match h : listed py soup file p with
    | .ok deps => simp [hp, and_comm]
    | .error _ => simp
  · simp [hp]

theorem mem_graph (h : buildDependencyGraph py soup packages file = .ok graph) {p : Str} :
    p ∈ graph ↔ p ∈ packages := by
  rw [Dict.mem_def, (buildDependencyGraph_ok h).1]
  exact Dict.mem_fromKeys

theorem succ_graph (h : buildDependencyGraph py soup packages file = .ok graph) :
    succ graph = requested py soup packages file := by
  funext p
  rw [succ, requested]
  split_ifs with hp
  · rw [(buildDependencyGraph_ok h).2 p hp]
    simp only [mem_graph h]
  · rw [Dict.getD, Dict.get?_eq_none (mt (mem_graph h).1 hp)]
    rfl

theorem emits_fromKeys {succ : Str → List Str} {order : List Str} {ps : List Str}
    (d : Dict Str (List Str))
    (h : Emits succ (ps.foldl (fun d p => d.set p []) d).keys [] order) :
    Emits succ (d.keys ++ ps) [] order := by
  induction ps generalizing d with
  | nil => rwa [List.append_nil]
  | cons p ps ih =>
    have h := ih (d.set p []) h
    rw [Dict.keys_set] at h
    split at h
    · next hp => exact h.insert (.inl hp)
    · rwa [List.append_assoc] at h

/-- The order that is printed is a depth-first emission of the requested packages. -/
theorem emits_of_cli {calls : ℕ} {order : List Str}
    (h : cli py soup calls packages file = .ok order) :
    Emits (requested py soup packages file) packages [] order := by
  rw [cli] at h
  match hgraph : buildDependencyGraph py soup packages file with
  | .error _ =>
    rw [hgraph] at h
    cases h
  | .ok graph =>
    rw [hgraph] at h
    match hsort : topologicalSort calls graph with
    | .error _ =>
      simp only [Except.mapError, bind, Except.bind, hsort] at h
      cases h
    | .ok order' =>
      simp only [Except.mapError, bind, Except.bind, hsort] at h
      cases h
      have he := topologicalSort_ok hsort
      rw [(buildDependencyGraph_ok hgraph).1, succ_graph hgraph] at he
      simpa using emits_fromKeys .empty he

/-- When every lookup succeeds and there is no cycle, an order is printed, the same on
    every stack that is large enough. -/
theorem cli_of_acyclic (hl : ∀ p ∈ packages, ∃ deps, listed py soup file p = .ok deps)
    (ha : ∀ v, ¬TransGen (Edge (requested py soup packages file)) v v) :
    ∃ order, ∀ calls > packages.length, cli py soup calls packages file = .ok order := by
  match hgraph : buildDependencyGraph py soup packages file with
  | .error e =>
    obtain ⟨p, hp, he⟩ := buildDependencyGraph_error hgraph
    obtain ⟨deps, hdeps⟩ := hl p hp
    rw [he] at hdeps
    cases hdeps
  | .ok graph =>
    have hlen : graph.keys.length < packages.length + 1 := by
      rw [(buildDependencyGraph_ok hgraph).1]
      exact Nat.lt_succ_of_le (Dict.length_keys_fromKeys_le packages [])
    match hsort : topologicalSort (packages.length + 1) graph with
    | .error .recursionError => exact absurd hsort (topologicalSort_ne_recursionError hlen)
    | .error (.valueError v) =>
      have hv := topologicalSort_valueError hsort
      rw [succ_graph hgraph] at hv
      exact absurd hv (ha v)
    | .ok order =>
      refine ⟨order, fun calls hcalls => ?_⟩
      have hcalls := (topologicalSort_stable hlen hcalls).trans hsort
      simp only [cli, hgraph, Except.mapError, bind, Except.bind, hcalls]

/-- When an order is printed, every lookup has succeeded and there is no cycle. -/
theorem listed_of_cli {calls : ℕ} {order : List Str}
    (h : cli py soup calls packages file = .ok order) :
    (∀ p ∈ packages, ∃ deps, listed py soup file p = .ok deps) ∧
      ∀ v, ¬TransGen (Edge (requested py soup packages file)) v v := by
  have he := emits_of_cli h
  refine ⟨fun p hp => ?_, fun v hv => ?_⟩
  · rw [cli] at h
    match hgraph : buildDependencyGraph py soup packages file with
    | .error _ =>
      rw [hgraph] at h
      cases h
    | .ok graph => exact ⟨_, (buildDependencyGraph_ok hgraph).2 p hp⟩
  · -- A node on a cycle is requested, so it is emitted.
    obtain ⟨d, hd, _⟩ := TransGen.head'_iff.1 hv
    exact (he.ordered .nil).acyclic (he.mem v (mem_requested.1 hd).1) hv

/-- Every order that is printed puts the packages that the section of `p` lists, in any
    letter case, before `p`, just if a lookup fails, or there is a cycle, or a
    depth-first traversal along the names as they are spelled comes to them first. -/
theorem cli_orders_iff (py : Python) (soup : Option Soup) (packages : List Str)
    (file : Option Str) :
    (∀ calls order, cli py soup calls packages file = .ok order →
      ∀ p ∈ packages, ∀ d, Lists py soup file p d → ∀ q ∈ packages,
        py.letters.lower q ≠ py.letters.lower p → py.letters.lower q = py.letters.lower d →
          Before order q p) ↔
    (∃ p ∈ packages, ∃ e, listed py soup file p = .error e) ∨
    (∃ v, TransGen (Edge (requested py soup packages file)) v v) ∨
      ∀ p ∈ packages, ∀ d, Lists py soup file p d → ∀ q ∈ packages,
        py.letters.lower q ≠ py.letters.lower p → py.letters.lower q = py.letters.lower d →
          First (requested py soup packages file) packages q p := by
  have hfirst {calls : ℕ} {order : List Str} {p q : Str}
      (h : cli py soup calls packages file = .ok order) (hp : p ∈ packages) (hq : q ∈ packages)
      (hne : py.letters.lower q ≠ py.letters.lower p) :
      Before order q p ↔ First (requested py soup packages file) packages q p := by
    have he := emits_of_cli h
    exact he.before_iff .nil List.not_mem_nil List.not_mem_nil (he.mem q hq) (he.mem p hp)
      fun e => hne (e ▸ rfl)
  constructor
  · intro h
    by_cases hl : ∀ p ∈ packages, ∃ deps, listed py soup file p = .ok deps
    · by_cases ha : ∀ v, ¬TransGen (Edge (requested py soup packages file)) v v
      · obtain ⟨order, horder⟩ := cli_of_acyclic hl ha
        have horder := horder _ (Nat.lt_succ_self _)
        refine .inr (.inr fun p hp d hd q hq hne heq => ?_)
        exact (hfirst horder hp hq hne).1 (h _ order horder p hp d hd q hq hne heq)
      · push Not at ha
        exact .inr (.inl ha)
    · push Not at hl
      obtain ⟨p, hp, hl⟩ := hl
      match he : listed py soup file p with
      | .ok deps => exact absurd he (hl deps)
      | .error e => exact .inl ⟨p, hp, e, he⟩
  · intro h calls order horder p hp d hd q hq hne heq
    obtain ⟨hl, ha⟩ := listed_of_cli horder
    rcases h with ⟨p', hp', e, he⟩ | ⟨v, hv⟩ | h
    · obtain ⟨deps, hdeps⟩ := hl p' hp'
      rw [he] at hdeps
      cases hdeps
    · exact absurd hv (ha v)
    · exact (hfirst horder hp hq hne).2 (h p hp d hd q hq hne heq)

/-- Requested in small letters, GCC is printed before Binutils. -/
theorem cli_orders_lost : ¬∀ calls order,
    cli .ascii none calls ["gcc".toList, "binutils".toList] (some gccSection) = .ok order →
      ∀ p ∈ ["gcc".toList, "binutils".toList], ∀ d, Lists .ascii none (some gccSection) p d →
        ∀ q ∈ ["gcc".toList, "binutils".toList],
          Letters.ascii.lower q ≠ Letters.ascii.lower p →
          Letters.ascii.lower q = Letters.ascii.lower d → Before order q p := by
  intro h
  have hlists : Lists .ascii none (some gccSection) "gcc".toList "Binutils".toList :=
    ⟨["Bash".toList, "Binutils".toList], by decide +kernel, by simp⟩
  have hbefore := h 3 ["gcc".toList, "binutils".toList] (by decide +kernel) "gcc".toList (by simp)
    _ hlists "binutils".toList (by simp) (by decide +kernel) (by decide +kernel)
  unfold Before at hbefore
  exact absurd hbefore (by decide +kernel)

theorem listed_gcc : listed .ascii none (some gccSection) "GCC".toList =
    .ok ["Bash".toList, "Binutils".toList] := by
  decide +kernel

theorem listed_binutils : listed .ascii none (some gccSection) "Binutils".toList = .ok [] := by
  decide +kernel

/-- Of GCC and Binutils, only GCC lists packages. -/
theorem lists_gccSection {p d : Str} (hp : p ∈ ["GCC".toList, "Binutils".toList])
    (h : Lists .ascii none (some gccSection) p d) :
    p = "GCC".toList ∧ d ∈ ["Bash".toList, "Binutils".toList] := by
  obtain ⟨deps, hdeps, hd⟩ := h
  rcases List.mem_pair.1 hp with rfl | rfl
  · rw [listed_gcc] at hdeps
    cases hdeps
    exact ⟨rfl, hd⟩
  · rw [listed_binutils] at hdeps
    cases hdeps
    exact absurd hd List.not_mem_nil

/-- Where only packages that list themselves are on a cycle, an order is printed just if
    every lookup succeeds and no package is among those. -/
theorem cli_returns_iff (py : Python) (soup : Option Soup) (packages : List Str)
    (file : Option Str)
    (ha : ∀ v, ¬TransGen (fun p d => p ≠ d ∧ p ∈ packages ∧ d ∈ packages ∧ Lists py soup file p d)
      v v) :
    (∃ order, ∀ calls > packages.length, cli py soup calls packages file = .ok order) ↔
      ∀ p ∈ packages, (∃ deps, listed py soup file p = .ok deps) ∧ ¬Lists py soup file p p := by
  constructor
  · rintro ⟨order, h⟩ p hp
    obtain ⟨hl, hacyclic⟩ := listed_of_cli (h _ (Nat.lt_succ_self _))
    exact ⟨hl p hp, fun hpp => hacyclic p (.single (mem_requested.2 ⟨hp, hp, hpp⟩))⟩
  · intro h
    refine cli_of_acyclic (fun p hp => (h p hp).1) fun v hv => ha v ?_
    refine TransGen.mono (fun p d hd => ?_) v v hv
    obtain ⟨hp, hd, hpd⟩ := mem_requested.1 hd
    exact ⟨fun e => (h p hp).2 (e ▸ hpd), hp, hd, hpd⟩

theorem cli_returns_gcc : ∃ order, ∀ calls > 2,
    cli .ascii none calls ["GCC".toList, "Binutils".toList] (some gccSection) = .ok order := by
  refine (cli_returns_iff .ascii none ["GCC".toList, "Binutils".toList] (some gccSection)
    fun v hcycle => ?_).2 fun p hp => ?_
  · obtain ⟨d, ⟨-, hv, -, hvd⟩, -⟩ := TransGen.head'_iff.1 hcycle
    obtain ⟨p, -, -, hp, -, hpv⟩ := TransGen.tail'_iff.1 hcycle
    obtain ⟨rfl, -⟩ := lists_gccSection hv hvd
    exact absurd (lists_gccSection hp hpv).2 (by decide +kernel)
  · refine ⟨?_, fun hpp => ?_⟩
    · rcases List.mem_pair.1 hp with rfl | rfl
      · exact ⟨_, listed_gcc⟩
      · exact ⟨_, listed_binutils⟩
    · obtain ⟨rfl, hmem⟩ := lists_gccSection hp hpp
      exact absurd hmem (by decide +kernel)

/-- The section of Bash, which lists Bash itself, as in the book. -/
def bashSection : Str :=
  ("<bridgehead>Bash</bridgehead><segmentedlist id=\"bash-depends\">" ++
    "<seg>Bash, Binutils, and GCC</seg></segmentedlist>").toList

/-- Requested alone, Bash is reported as a circular dependency. -/
theorem cli_raises_bash :
    (∀ v, ¬TransGen (fun p d => p ≠ d ∧ p ∈ ["Bash".toList] ∧ d ∈ ["Bash".toList] ∧
      Lists .ascii none (some bashSection) p d) v v) ∧
    cli .ascii none 2 ["Bash".toList] (some bashSection) =
      .error (.inr (.valueError "Bash".toList)) := by
  refine ⟨fun v hv => ?_, by decide +kernel⟩
  obtain ⟨d, ⟨hne, hp, hd, _⟩, _⟩ := TransGen.head'_iff.1 hv
  exact hne ((List.mem_singleton.1 hp).trans (List.mem_singleton.1 hd).symm)

end LfsBuilder
