import Shipment.Glob.Matching
import Shipment.Text.Blank
import Shipment.Text.Quoted

/-!
# Ignore rules

A project leaves files out by glob patterns.  A pattern that does not start at
the top of the project matches at any depth, and one that ends in a slash
covers everything below that directory.  There is no negation: a path that one
rule matches is excluded, whatever the other rules are.
-/

namespace Shipment

/-- A pattern ready to match: its full text and its pieces. -/
structure IgnoreRule where
  text : String
  pieces : List Glob

namespace IgnoreRule

def startsWith (start text : List Char) : Bool :=
  start.isPrefixOf text

def endsWith (tail text : List Char) : Bool :=
  tail.isSuffixOf text

/-- The full text of a pattern: `**/` in front unless it is anchored or starts
so already, and `**` behind a final slash unless that follows `**`. -/
def fullText (raw : List Char) : List Char :=
  let front := if startsWith ['/'] raw || startsWith "**/".toList raw then [] else "**/".toList
  let back := if endsWith ['/'] raw && !endsWith "/**/".toList raw then "**".toList else []
  front ++ raw ++ back

/-- Reads a pattern. -/
def compile (raw : List Char) : Except GlobError IgnoreRule :=
  let text := fullText raw
  match Glob.read text with
  | .error e => .error e
  | .ok pieces =>
    if Glob.depthLimit < 1 + Glob.maxDepth pieces then .error .tooDeep
    else .ok ⟨String.ofList text, pieces⟩

def matchesPath (rule : IgnoreRule) (path : List Char) : Bool :=
  Glob.matchesAll rule.pieces path

end IgnoreRule

/-- A pattern that could not be read, with its place in the text it came from. -/
structure BadPattern where
  /-- The number of the line, from one. -/
  line : Nat
  pattern : String
  reason : GlobError
  /-- The name and the whole of the text that holds the pattern. -/
  sourceName : String
  source : String
  /-- Where the pattern starts, in bytes. -/
  offset : Nat
  deriving DecidableEq, Repr

namespace BadPattern

def length (bad : BadPattern) : Nat :=
  Text.byteLength bad.pattern.toList

/-- The wording of the error, for the reasons that have one. -/
def message? (bad : BadPattern) : Option String :=
  bad.reason.message?.map fun reason =>
    "invalid glob pattern " ++ Text.quoted bad.pattern ++ " on line " ++ toString bad.line ++
      ": " ++ reason

end BadPattern

structure IgnoreRules where
  rules : List IgnoreRule

namespace IgnoreRules

def empty : IgnoreRules := ⟨[]⟩

def isEmpty (set : IgnoreRules) : Bool :=
  set.rules.isEmpty

/-- The full texts of the patterns, in order. -/
def texts (set : IgnoreRules) : List String :=
  set.rules.map (·.text)

/-- Reads the patterns of the lines, the first of which has the given number
and byte offset.  A pattern is a line without the blanks around it. -/
def readLines (sourceName source : String) (number offset : Nat) :
    List (List Char) → Except BadPattern (List IgnoreRule)
  | [] => .ok []
  | line :: rest =>
    let next := readLines sourceName source (number + 1) (offset + Text.byteLength line) rest
    let pattern := Text.trim line
    if pattern.isEmpty then next
    else
      match IgnoreRule.compile pattern with
      | .ok rule => next.map (rule :: ·)
      | .error reason =>
        let start := Text.byteLength (line.takeWhile Text.isBlank)
        .error ⟨number, String.ofList pattern, reason, sourceName, source, offset + start⟩

/-- Reads a list of patterns, one a line; blank lines are skipped. -/
def parse (source sourceName : String) : Except BadPattern IgnoreRules :=
  (readLines sourceName source 1 0 (Text.lines source.toList)).map (⟨·⟩)

/-- Adds one more pattern, taken as it is. -/
def add (set : IgnoreRules) (raw : String) : Except BadPattern IgnoreRules :=
  match IgnoreRule.compile raw.toList with
  | .ok rule => .ok ⟨set.rules ++ [rule]⟩
  | .error reason => .error ⟨1, raw, reason, "<pattern>", raw, 0⟩

def addAll (set : IgnoreRules) : List String → Except BadPattern IgnoreRules
  | [] => .ok set
  | raw :: rest =>
    match set.add raw with
    | .ok more => more.addAll rest
    | .error e => .error e

def matchesPath (set : IgnoreRules) (path : List Char) : Bool :=
  set.rules.any (·.matchesPath path)

/-- Whether a path below the project is left out.  The path is matched from a
leading slash on, and a directory also with a slash behind it. -/
def excludes (set : IgnoreRules) (relative : String) (isDirectory : Bool) : Bool :=
  let anchored := '/' :: relative.toList.dropWhile (· == '/')
  set.matchesPath anchored || (isDirectory && set.matchesPath (anchored ++ ['/']))

end IgnoreRules

end Shipment
