import LfsBuilder.Library.Markup
import LfsBuilder.Library.PatternMatch

/-!
# Reading the book

`lfs_parser.py`: the build commands of a chapter, and the dependencies of a
package. Both have two ways to read a document, by the library BeautifulSoup
where it is installed (`Soup`), and by regular expressions on its text.
-/

namespace LfsBuilder

open Text Backtracking Markup

/-! ## Build commands -/

/-- The pattern `^[#$]\s*`, without its anchor. -/
def prompt : Regex := .seq (.char fun c => c = '#' || c = '$') (.many isSpace)

/-- `clean_command` -/
def cleanCommand (text : Str) : Str :=
  ['\n'].intercalate ((splitlines (strip text)).map fun line => subStart prompt [] (strip line))

/-- `is_build_command` -/
def isBuildCommand (cmd : Str) : Bool := cmd ≠ [] && !startsWith '#' cmd

/-- The command of a block, if it is one. -/
def buildCommand? (text : Str) : Option Str :=
  let cmd := cleanCommand text
  if isBuildCommand cmd then some cmd else none

/-- `[^>]` -/
def inTag (c : Char) : Bool := c ≠ '>'

/-- A quotation mark of either kind. -/
def quotation (c : Char) : Bool := c = '\'' || c = '"'

/-- The start tags that the fallback takes for a `pre` of the class `userinput`, up to
    their angle bracket. -/
def preTag : Regex :=
  .seq (lit ignoreCase "<pre".toList) <| .seq (.many inTag) <|
    .seq (lit ignoreCase "class=".toList) <| .seq (.char quotation) <|
    .seq (lit ignoreCase "userinput".toList) <| .seq (.char quotation) (.many inTag)

/-- Those that it takes for a `userinput`. -/
def userinputTag : Regex := .seq (lit ignoreCase "<userinput".toList) (.many inTag)

/-- The pattern for an element: its start tag, and the text up to the end tag
    `close`. -/
def block (tag : Regex) (close : Str) : Regex :=
  .seq tag <| .seq (lit ignoreCase ['>']) <| .seq (.group (.lazy dot)) (lit ignoreCase close)

/-- The two patterns of `extract_build_commands`. -/
def preBlock : Regex := block preTag "</pre>".toList

def userinputBlock : Regex := block userinputTag "</userinput>".toList

/-- `extract_build_commands`, on the text of the chapter. -/
def extractBuildCommands : Option Soup → Str → List Str
  | some soup, text =>
    let all := elements (soup.parse text)
    let blocks := all.filter fun e =>
      soup.named "pre".toList e && soup.hasClass "userinput".toList e
    let blocks := blocks ++ all.filter (soup.named "userinput".toList)
    blocks.filterMap fun e => buildCommand? (soup.text e)
  | none, text =>
    (findall preBlock text).filterMap (fun m => buildCommand? (m.groups.headD [])) ++
      (findall userinputBlock text).filterMap fun m => buildCommand? (m.groups.headD [])

/-! ## Dependencies -/

/-- The exceptions of the fallback for a name that is more than itself in the pattern: the
    pattern does not compile, it has no group, or its first group takes no part in the
    match. -/
inductive LookupError
  | patternError
  | indexError
  | typeError
  deriving DecidableEq

/-- Python, as far as it is left open: what it knows of the characters of Unicode. -/
abbrev Python := Sre.Unicode

/-- Python with the letters and digits of ASCII. -/
def Python.ascii : Python where
  letters := .ascii
  lowerChar := Char.toLower
  isAlnum := Char.isAlphanum
  decimal c := if c.isDigit then some (Sre.digit c) else none

/-- The characters that `re.escape` escapes. -/
def escaped : Str := "()[]{}?*+-|^$\\.&~# \t\n\r\x0b\x0c".toList

/-- `re.escape` -/
def escape (s : Str) : Str := s.flatMap fun c => if c ∈ escaped then ['\\', c] else [c]

/-- The pattern of the fallback for the section of a package. -/
def sectionPattern (py : Python) (name : Str) : Str :=
  "<bridgehead[^>]*>\\s*".toList ++ escape name ++ "\\s*</bridgehead>.*?".toList ++
    "<segmentedlist[^>]*id=[\\\"']".toList ++ py.letters.lower name ++
    "-depends[\\\"'][^>]*>".toList ++ ".*?<seg>(.*?)</seg>".toList

/-- `re.DOTALL | re.IGNORECASE` -/
def sectionFlags : Sre.Flags where
  ignoreCase := true
  ascii := false
  dotAll := true
  multiLine := false
  verbose := false

/-- `m.group(1)`, for a text to go on with. -/
def firstGroup (groups : ℕ) (m : Sre.Place) : Except LookupError Str :=
  if groups = 0 then .error .indexError
  else match m.groups 1 with
    | some text => .ok text
    | none => .error .typeError

/-- `re.search` for the section of a package, and its first group. -/
def searchSection (py : Python) (name text : Str) : Except LookupError (Option Str) :=
  match Sre.compile py.decimal sectionFlags (sectionPattern py name) with
  | none => .error .patternError
  | some c =>
    match Sre.search py c.pattern text with
    | none => .ok none
    | some m => (firstGroup c.groups m).map some

/-- The pattern `\s+and\s+`. -/
def andPattern : Regex :=
  .seq (.char isSpace) <| .seq (.many isSpace) <| .seq (lit (· == ·) "and".toList) <|
    .seq (.char isSpace) (.many isSpace)

/-- The names in the text of a list. -/
def splitDeps (letters : Letters) (text : Str) : List Str :=
  let text := sub andPattern ", ".toList text
  let deps := (text.splitOn ',').filter fun d =>
    strip d ≠ [] && letters.lower (strip d) ≠ "none".toList
  deps.map fun d => rstrip ['.'] (strip d)

/-- A `bridgehead` with the name of a package. -/
def isBridge (letters : Letters) (soup : Soup) (name : Str) (b : Element) : Bool :=
  soup.named "bridgehead".toList b && letters.lower (strip (soup.text b)) = letters.lower name

/-- A `segmentedlist` whose `id` matches `.*-depends$`, which a line break may follow. -/
def isDependsList (soup : Soup) (e : Element) : Bool :=
  soup.named "segmentedlist".toList e &&
    match soup.attr? "id".toList e with
    | some id => "-depends".toList.isSuffixOf id || "-depends\n".toList.isSuffixOf id
    | none => false

/-- `resolve_dependencies`, on the text of the file, if it exists. -/
def resolveDependencies (py : Python) :
    Option Soup → (name : Str) → Option Str → Except LookupError (List Str)
  | _, _, none => .ok []
  | some soup, name, some text =>
    -- The elements from the bridgehead on, in document order.
    match (elements (soup.parse text)).dropWhile fun b => !isBridge py.letters soup name b with
    | [] => .ok []
    | _ :: next =>
      match next.find? (isDependsList soup) with
      | none => .ok []
      | some seglist =>
        match (elements seglist.inner).find? (soup.named "seg".toList) with
        | none => .ok []
        | some seg => .ok (splitDeps py.letters (soup.text seg))
  | none, name, some text => do
    match ← searchSection py name text with
    | none => return []
    | some text => return splitDeps py.letters text

end LfsBuilder
