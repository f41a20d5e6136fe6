import LfsBuilder.Library.Coreutils
import LfsBuilder.Scripts.PackageManagement
import LfsBuilder.Scripts.LfsBuild.Stages

/-!
# The directory of a tarball

Where a tarball unpacks to is computed from its name, with two runs of sed by
`build_core_tools` of `lfs-build.sh` (`toolDirectory`), and with an expansion by
`build_package` of `package_management.sh` (`sourceName`).

* `toolDirectory_eq_sourceName`: the two agree on the name of a `Tarball`.
-/

namespace LfsBuilder

open Coreutils PackageManagement LfsBuild.Stages

/-- A tarball, by the two parts of its name. -/
structure Tarball where
  /-- The name and the version of the package. -/
  base : String
  /-- What comes after the `.tar`. -/
  ext : String
  base_dash : ∃ before digit after,
    base.toList = before ++ '-' :: digit :: after ∧ digit.isDigit = true
  ext_dash : ∀ before digit after,
    ext.toList = before ++ '-' :: digit :: after → ¬digit.isDigit = true
  ext_tar : ∀ before after, ext.toList ≠ before ++ (".tar".toList ++ after)
  base_line : '\n' ∉ base.toList
  ext_line : '\n' ∉ ext.toList

namespace Tarball

/-- The name of the file. -/
def name (t : Tarball) : String := t.base ++ ".tar" ++ t.ext

theorem toList_name (t : Tarball) :
    t.name.toList = t.base.toList ++ (".tar".toList ++ t.ext.toList) := by
  rw [name, String.toList_append, String.toList_append, List.append_assoc]

theorem greedy_dashDigit_ext (t : Tarball) : greedy dashDigit t.ext.toList = none := by
  refine greedy_eq_none_iff.2 fun post hpost => ?_
  obtain ⟨before, hb⟩ := hpost
  rcases post with _ | ⟨c, _ | ⟨d, after⟩⟩
  · rfl
  · rfl
  · refine if_neg fun hc => t.ext_dash before d after ?_ hc.2
    rw [← hb, hc.1]

theorem greedy_dotTar_ext (t : Tarball) : greedy dotTar t.ext.toList = none := by
  refine greedy_eq_none_iff.2 fun post hpost => ?_
  obtain ⟨before, hb⟩ := hpost
  refine if_neg fun hp => ?_
  obtain ⟨after, rfl⟩ := List.isPrefixOf_iff_prefix.1 hp
  exact t.ext_tar before after hb.symm

/-- The last dash of the base that a digit follows. -/
theorem exists_greedy_base (t : Tarball) :
    ∃ name version, greedy dashDigit t.base.toList = some (name, version) ∧
      t.base.toList = name ++ '-' :: version := by
  obtain ⟨before, digit, after, hb, hd⟩ := t.base_dash
  have hsome : greedy dashDigit t.base.toList ≠ none := fun hm => by
    have h := greedy_eq_none_iff.1 hm ('-' :: digit :: after) ⟨before, hb.symm⟩
    rw [dashDigit, if_pos ⟨rfl, hd⟩] at h
    cases h
  obtain ⟨m, hm⟩ := Option.ne_none_iff_exists'.1 hsome
  obtain ⟨post, hb, hv, _⟩ := greedy_eq_some_iff.1 hm
  exact ⟨m.1, m.2, hm, eq_cons_of_dashDigit hv ▸ hb⟩

end Tarball

/-- The name and the version that sed finds make up the base of the name, which is
    also what the expansion leaves of it: both scripts enter the same directory. -/
theorem toolDirectory_eq_sourceName (t : Tarball) :
    sedName t.name ++ "-" ++ sedVersion t.name = t.base ∧ sourceName t.name = t.base ∧
      toolDirectory t.name = sourceName t.name := by
  obtain ⟨name, version, hm, hb⟩ := t.exists_greedy_base
  have hname : sedName t.name = String.ofList name := by
    rw [sedName, beforeDashDigit_eq, t.toList_name,
      greedy_dashDigit_append t.greedy_dashDigit_ext, hm]
    rfl
  have hversion : sedVersion t.name = String.ofList version := by
    rw [sedVersion, betweenDashTar_eq, t.toList_name,
      greedy_dashDigitTar_append t.greedy_dashDigit_ext t.greedy_dotTar_ext, hm]
    rfl
  have hdirectory : sedName t.name ++ "-" ++ sedVersion t.name = t.base := by
    refine String.toList_inj.1 ?_
    rw [hname, hversion, hb]
    simp
  have hsource : sourceName t.name = t.base := by
    rw [sourceName, beforeTar_eq, t.toList_name, greedy_dotTar_append t.greedy_dotTar_ext]
    exact String.ofList_toList
  exact ⟨hdirectory, hsource, hdirectory.trans hsource.symm⟩

/-- A name with two dashes before digits, and a `.tar` before the last one. -/
def patched : Tarball where
  base := "util-linux-2.41.tar-1"
  ext := ".xz"
  base_dash := ⟨"util-linux".toList, '2', ".41.tar-1".toList, by decide, by decide⟩
  ext_dash := fun before digit after h => by
    have hmem : '-' ∈ ".xz".toList := h ▸ by simp
    exact absurd hmem (by decide)
  ext_tar := fun before after h => by
    have hlen := congrArg List.length h
    simp at hlen
    omega
  base_line := by decide
  ext_line := by decide

theorem toolDirectory_eq_sourceName_patched :
    sedName "util-linux-2.41.tar-1.tar.xz" ++ "-" ++ sedVersion "util-linux-2.41.tar-1.tar.xz" =
      "util-linux-2.41.tar-1" ∧
    sourceName "util-linux-2.41.tar-1.tar.xz" = "util-linux-2.41.tar-1" ∧
    toolDirectory "util-linux-2.41.tar-1.tar.xz" = sourceName "util-linux-2.41.tar-1.tar.xz" :=
  toolDirectory_eq_sourceName patched

end LfsBuilder
