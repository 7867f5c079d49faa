import Wildcard.Regex.Choice
import Wildcard.Regex.Flags
import Wildcard.Regex.Reader

/-!
# Compiled regexes

A regex text is compiled under flags: it is read, verbosely if the flags say so, and the flags
must not ask for both ways of folding case. Where case is ignored, alternatives that are a set in
effect are marked. A compiled regex keeps its text, and answers whether it is found in a candidate.

A search is what can be asked of a compiled regex: its text, its flags and what it is found in. Any
predicate makes one, so a search that was not compiled here is as good as one that was.

A text that cannot be read is refused for that reason, whatever the flags.
-/

namespace Wildcard

namespace Regex

/-- Why a regex text is not compiled. -/
inductive CompileError where
  /-- The text is not read; the place is where the trouble is. -/
  | reversedRange (first last : Literal) (place : Place)
  | unsupported (place : Place)
  | asciiAndUnicode
  deriving DecidableEq, Repr

/-- What a reading error of a text is as an error of compiling it. -/
def ReadError.inText (text : List Char) : ReadError → CompileError
  | reversedRange x y offset => .reversedRange x y (.of text offset)
  | unsupported offset => .unsupported (.of text offset)

/-- How a place is named in a message. -/
def Place.message (p : Place) : String :=
  let base := "at position " ++ toString p.offset
  match p.lineAndColumn with
  | some (line, column) =>
    base ++ " (line " ++ toString line ++ ", column " ++ toString column ++ ")"
  | none => base

/-- The message of an error of compiling. -/
def CompileError.message : CompileError → String
  | reversedRange x y place =>
    "bad character range " ++ String.ofList x.label ++ "-" ++ String.ofList y.label ++ " " ++
      place.message
  | unsupported place => "unsupported construct " ++ place.message
  | asciiAndUnicode => "ASCII and UNICODE flags are incompatible"

/-- Which differences of case the flags ignore. -/
def Flags.caseRule (f : Flags) : CaseRule :=
  if !f.ignoreCase then .exact else if f.ascii then .ascii else .unicode

end Regex

/-- A regex text that was compiled, with the flags it was compiled under. -/
structure CompiledRegex where
  source : List Char
  flags : Regex.Flags
  regex : Regex
  deriving Repr

namespace CompiledRegex

/-- Compiles a text under flags. -/
def compile (source : List Char) (flags : Regex.Flags) : Except Regex.CompileError CompiledRegex :=
  match Regex.read flags.verbose source with
  | .error e => .error (e.inText source)
  | .ok regex =>
    if flags.ascii && flags.unicode then .error .asciiAndUnicode
    else .ok { source, flags, regex := if flags.ignoreCase then regex.markChoices else regex }

/-- A candidate as a text to match under the flags. -/
def subject (c : CompiledRegex) (candidate : List Char) : Regex.Subject where
  text := candidate
  rule := c.flags.caseRule
  dotAll := c.flags.dotAll
  multiline := c.flags.multiline

/-- Whether the regex is found anywhere in a candidate. -/
def isFoundIn (c : CompiledRegex) (candidate : List Char) : Bool :=
  c.regex.isFound (c.subject candidate)

end CompiledRegex

/-- What can be asked of a regex once it is compiled, by whomever. -/
structure Search where
  source : List Char
  flags : Regex.Flags
  /-- Whether the regex is found anywhere in a candidate. -/
  isFoundIn : List Char → Bool

/-- What can be asked of a compiled regex. -/
def CompiledRegex.search (c : CompiledRegex) : Search where
  source := c.source
  flags := c.flags
  isFoundIn := c.isFoundIn

end Wildcard
