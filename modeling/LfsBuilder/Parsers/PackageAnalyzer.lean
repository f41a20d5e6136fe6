import LfsBuilder.Library.Walk
import LfsBuilder.Parsers.LfsParser

/-!
# The page of a package

`package_analyzer.py`: the page of a package is looked for by its name in the
documentation, and its commands are returned with the dependencies that the book
lists for the package.

* `findPackageFile_own_iff`: when the page found is the package's own, if there is
  one, and does not depend on the order in which the operating system enumerates
  the documentation;
* `findPackageFile_make`: the page of `make-ca` is found for `make`.
-/

namespace LfsBuilder.PackageAnalyzer

open Text Markup Walk

/-- `f.lower().startswith(name_lower) and f.endswith(".xml")` -/
def isMatch (letters : Letters) (packageName f : Str) : Bool :=
  (letters.lower packageName).isPrefixOf (letters.lower f) && ".xml".toList.isSuffixOf f

/-- `_find_package_file`, on the entries of `root`. -/
def findPackageFile (letters : Letters) (packageName : Str) (root : Entries Str) :
    Option (File Str) :=
  root.search (isMatch letters packageName) []

/-- What `analyze_package` returns for a package that is found. -/
structure Analysis where
  name : Str
  file : File Str
  commands : List Str
  dependencies : List Str
  deriving DecidableEq

/-- `analyze_package`, on the documentation in `root` with the texts `content`, and on
    the text of the file with the dependencies. The empty dictionary is `none`. -/
def analyzePackage (py : Python) (soup : Option Soup) (root : Entries Str)
    (content : File Str → Str) (dependencies : Option Str) (packageName : Str) :
    Except LookupError (Option Analysis) :=
  match findPackageFile py.letters packageName root with
  | none => .ok none
  | some path => do
    let commands := extractBuildCommands soup (content path)
    let deps ← resolveDependencies py soup packageName dependencies
    return some ⟨packageName, path, commands, deps⟩

/-- The page of a package has its name, up to letter case. -/
def IsOwnPage (letters : Letters) (packageName : Str) (f : File Str) : Prop :=
  letters.lower f.name = letters.lower (packageName ++ ".xml".toList)

/-- The documentation has a page of the package. -/
def HasOwnPage (letters : Letters) (packageName : Str) (root : Entries Str) : Prop :=
  ∃ f ∈ root.allFiles [], IsOwnPage letters packageName f

variable {py : Python} {soup : Option Soup} {root : Entries Str} {content : File Str → Str}
  {dependencies : Option Str} {packageName : Str} {data : Analysis}

/-- The commands that are returned are those of the page that is found. -/
theorem analyzePackage_ok
    (h : analyzePackage py soup root content dependencies packageName = .ok (some data)) :
    findPackageFile py.letters packageName root = some data.file ∧
      data.commands = extractBuildCommands soup (content data.file) ∧
      resolveDependencies py soup packageName dependencies = .ok data.dependencies := by
  unfold analyzePackage at h
  split at h
  · cases h
  · next path hpath =>
    cases hdeps : resolveDependencies py soup packageName dependencies with
    | error _ =>
      rw [hdeps] at h
      cases h
    | ok deps =>
      rw [hdeps] at h
      cases h
      exact ⟨hpath, rfl, rfl⟩

/-- In every order of enumeration, the page that is found is the package's own if it
    has one, it is always the same, and the dependencies of the package are only
    returned with the commands of such a page. -/
def FindsOwnPage (py : Python) (soup : Option Soup) (root : Entries Str) (content : File Str → Str)
    (dependencies : Option Str) (packageName : Str) : Prop :=
  ∀ root', Reordered root root' →
    (HasOwnPage py.letters packageName root →
      ∃ f, findPackageFile py.letters packageName root' = some f ∧
        IsOwnPage py.letters packageName f) ∧
    findPackageFile py.letters packageName root' = findPackageFile py.letters packageName root ∧
    (HasOwnPage py.letters packageName root →
      ∀ data, analyzePackage py soup root' content dependencies packageName = .ok (some data) →
        IsOwnPage py.letters packageName data.file ∧
          data.commands = extractBuildCommands soup (content data.file) ∧
          resolveDependencies py soup packageName dependencies = .ok data.dependencies)

/-- That is so exactly if no two matching files are foremost, and one of them is the
    package's own page if it has one. -/
theorem findPackageFile_own_iff (py : Python) (soup : Option Soup) (root : Entries Str)
    (content : File Str → Str) (dependencies : Option Str) (packageName : Str) :
    FindsOwnPage py soup root content dependencies packageName ↔
      (∀ f ∈ root.foremost (isMatch py.letters packageName) [],
        ∀ g ∈ root.foremost (isMatch py.letters packageName) [], f = g) ∧
      (HasOwnPage py.letters packageName root →
        ∃ f ∈ root.foremost (isMatch py.letters packageName) [],
          IsOwnPage py.letters packageName f) := by
  rw [← search_forall_iff]
  refine forall₂_congr fun root' _ => ⟨fun h => ⟨h.1, h.2.1⟩, fun h => ⟨h.1, h.2, ?_⟩⟩
  intro hown data hdata
  obtain ⟨hfile, hcommands, hdeps⟩ := analyzePackage_ok hdata
  obtain ⟨f, hf, hpage⟩ := h.1 hown
  have hf' : data.file = f := Option.some_inj.1 (hfile.symm.trans hf)
  exact ⟨hf' ▸ hpage, hcommands, hdeps⟩

/-- The pages of `make-ca` and `make`, as the books have them. -/
def makePages : Entries Str :=
  .dir "blfs-git".toList (.dir "postlfs".toList
      (.dir "security".toList (.file "make-ca.xml".toList .nil) .nil) .nil) <|
    .dir "lfs-git".toList (.dir "chapter08".toList (.file "make.xml".toList .nil) .nil) .nil

theorem findPackageFile_make :
    ¬FindsOwnPage .ascii none makePages (fun _ => []) none "make".toList := fun h => by
  obtain ⟨f, hf, hown⟩ := (h makePages (.refl _)).1
    ⟨⟨["lfs-git".toList, "chapter08".toList], "make.xml".toList⟩, by decide, rfl⟩
  have hca : findPackageFile .ascii "make".toList makePages =
      some ⟨["blfs-git".toList, "postlfs".toList, "security".toList], "make-ca.xml".toList⟩ := by
    decide +kernel
  have hne : ¬IsOwnPage .ascii "make".toList
      ⟨["blfs-git".toList, "postlfs".toList, "security".toList], "make-ca.xml".toList⟩ := by
    unfold IsOwnPage
    decide
  exact hne (Option.some_inj.1 (hca.symm.trans hf) ▸ hown)

end LfsBuilder.PackageAnalyzer
