import LfsBuilder.Parsers.DependencyResolver

/-!
# Requests that grow

How the order that the command line of `dependency_resolver.py` prints for one
request is related to the order for another.

* `cli_append`: packages that are requested in addition, and that no earlier one lists,
  come after the order that is printed without them;
* `cli_again`: a request in the order that is printed for it is printed as it is.
-/

namespace LfsBuilder

open Text Markup DepthFirst Relation

variable {py : Python} {soup : Option Soup} {packages more : List Str} {file : Option Str}

/-- With more packages requested, the same packages are followed from a package that lists none
    of the new ones. -/
theorem requested_append {p : Str} (hp : p ∈ packages)
    (hmore : ∀ d ∈ more, Lists py soup file p d → d ∈ packages) :
    requested py soup (packages ++ more) file p = requested py soup packages file p := by
  rw [requested, requested, if_pos hp, if_pos (List.mem_append_left _ hp)]
  cases hlisted : listed py soup file p with
  | error _ => rfl
  | ok deps =>
    refine List.filter_congr fun d hd => ?_
    have hiff : d ∈ packages ++ more ↔ d ∈ packages := by
      rw [List.mem_append]
      exact or_iff_left_of_imp fun hdm => hmore d hdm ⟨deps, hlisted, hd⟩
    simp only [hiff]

/-- What is printed for a request holds the packages that are requested, each once. -/
theorem mem_of_cli {calls : ℕ} {order : List Str}
    (h : cli py soup calls packages file = .ok order) :
    order.Nodup ∧ ∀ p, p ∈ order ↔ p ∈ packages := by
  have he := emits_of_cli h
  refine ⟨(he.ordered .nil).nodup, fun p => ⟨fun hp => ?_, he.mem p⟩⟩
  rcases he.reach_of_mem hp with hp | ⟨n, hn, hr⟩
  · exact absurd hp List.not_mem_nil
  · rcases ReflTransGen.cases_tail hr with rfl | ⟨_, _, hd⟩
    · exact hn
    · exact (mem_requested.1 hd).2.1

/-- When packages are requested in addition, and no package that was requested lists one of
    them, an order that is printed begins with the one that is printed without them. -/
theorem cli_append {calls : ℕ} {order : List Str}
    (h : cli py soup calls (packages ++ more) file = .ok order)
    (hmore : ∀ p ∈ packages, ∀ d ∈ more, Lists py soup file p d → d ∈ packages) :
    ∃ first rest, order = first ++ rest ∧
      (∀ calls' > packages.length, cli py soup calls' packages file = .ok first) ∧
      rest.Nodup ∧ ∀ d, d ∈ rest ↔ d ∈ more ∧ d ∉ packages := by
  obtain ⟨hl, ha⟩ := listed_of_cli h
  have hsucc : ∀ p ∈ packages, requested py soup (packages ++ more) file p =
      requested py soup packages file p := fun p hp => requested_append hp (hmore p hp)
  -- Without the new packages there are fewer edges, and so no cycle.
  have hedge (p d : Str) (hd : Edge (requested py soup packages file) p d) :
      Edge (requested py soup (packages ++ more) file) p d := by
    have hp : p ∈ packages := (mem_requested.1 hd).1
    rwa [Edge, hsucc p hp]
  obtain ⟨first, hfirst⟩ : ∃ order, ∀ calls' > packages.length,
      cli py soup calls' packages file = .ok order :=
    cli_of_acyclic (fun p hp => hl p (List.mem_append_left _ hp))
      fun v hv => ha v (TransGen.mono hedge v v hv)
  obtain ⟨o₁, h₁, h₂⟩ := (emits_of_cli h).of_append
  have hclosed : ∀ x ∈ o₁, x ∈ packages := by
    intro x hx
    rcases h₁.reach_of_mem hx with hx | ⟨n, hn, hr⟩
    · exact absurd hx List.not_mem_nil
    · clear hx
      induction hr with
      | refl => exact hn
      | @tail p d _ hd hp =>
        rw [Edge, hsucc p hp] at hd
        exact (mem_requested.1 hd).2.1
  have hfirst₁ : o₁ = first :=
    (h₁.congr fun n hn => (hsucc n (hclosed n hn)).symm).unique
      (emits_of_cli (hfirst _ (Nat.lt_succ_self _)))
  obtain ⟨rest, rfl⟩ := h₂.isPrefix
  subst hfirst₁
  obtain ⟨hnd, hmem⟩ := mem_of_cli h
  have hdisjoint := (List.nodup_append.1 hnd).2.2
  have hmem₁ := (mem_of_cli (hfirst _ (Nat.lt_succ_self _))).2
  refine ⟨o₁, rest, rfl, hfirst, (List.nodup_append.1 hnd).2.1, fun d => ⟨fun hd => ?_, ?_⟩⟩
  · have hdp : d ∉ packages := fun hp => hdisjoint d ((hmem₁ d).2 hp) d hd rfl
    exact ⟨(List.mem_append.1 ((hmem d).1 (List.mem_append_right _ hd))).resolve_left hdp, hdp⟩
  · rintro ⟨hd, hdp⟩
    refine (List.mem_append.1 ((hmem d).2 (List.mem_append_right _ hd))).resolve_left ?_
    exact mt (hmem₁ d).1 hdp

/-- GCC and Binutils come first in the order for more packages, as they do by themselves. -/
theorem cli_append_gcc : ∃ first rest,
    ["Binutils".toList, "GCC".toList, "gcc".toList, "Attr".toList] = first ++ rest ∧
    (∀ calls' > 2, cli .ascii none calls' ["GCC".toList, "Binutils".toList] (some gccSection) =
      .ok first) ∧
    rest.Nodup ∧ ∀ d, d ∈ rest ↔ d ∈ ["gcc".toList, "Binutils".toList, "Attr".toList] ∧
      d ∉ ["GCC".toList, "Binutils".toList] := by
  refine @cli_append .ascii none ["GCC".toList, "Binutils".toList]
    ["gcc".toList, "Binutils".toList, "Attr".toList] (some gccSection) 5 _ (by decide +kernel)
    fun p hp d hd hlists => ?_
  obtain ⟨-, hmem⟩ := lists_gccSection hp hlists
  clear hlists
  revert d
  decide +kernel

/-- A request in the order that is printed for a request is printed as it is. -/
theorem cli_again {calls : ℕ} {order : List Str}
    (h : cli py soup calls packages file = .ok order) :
    ∀ calls' > order.length, cli py soup calls' order file = .ok order := by
  obtain ⟨hl, ha⟩ := listed_of_cli h
  have hmem := (mem_of_cli h).2
  have hsucc : requested py soup order file = requested py soup packages file := by
    funext p
    simp only [requested, hmem]
  obtain ⟨order', horder'⟩ : ∃ order', ∀ calls' > order.length,
      cli py soup calls' order file = .ok order' :=
    cli_of_acyclic (fun p hp => hl p ((hmem p).1 hp)) (hsucc ▸ ha)
  have he := ((emits_of_cli h).ordered .nil).emits
  rw [← hsucc] at he
  obtain rfl := he.unique (emits_of_cli (horder' _ (Nat.lt_succ_self _)))
  exact horder'

theorem cli_again_gcc :
    cli .ascii none 3 ["Binutils".toList, "GCC".toList] (some gccSection) =
      .ok ["Binutils".toList, "GCC".toList] :=
  @cli_again .ascii none ["GCC".toList, "Binutils".toList, "GCC".toList] (some gccSection) 3
    ["Binutils".toList, "GCC".toList] (by decide +kernel) 3 (by decide)

end LfsBuilder
