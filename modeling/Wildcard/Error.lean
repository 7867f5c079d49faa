import Wildcard.Regex.Compiled
import Wildcard.Text.Quoted

/-!
# What can go wrong in matching

The causes, and the message of each. Where a value of the wrong kind was handed over, the cause
holds the word for its kind.
-/

namespace Wildcard

/-- Which of two sequences was handed over. -/
inductive SequenceRole where
  | candidates
  | patterns
  deriving DecidableEq, Repr

/-- Why a matching operation fails. -/
inductive MatchError where
  | patternNotText (kind : String)
  | candidateNotText (kind : String)
  /-- A single text stands where a sequence of texts is expected. -/
  | singleText (role : SequenceRole)
  | notASequence (kind : String)
  | unknownFlag (letter : Char)
  /-- A value that is no compiled regex was to be registered. -/
  | notARegex (kind : String)
  /-- The regex of the pattern is refused. -/
  | invalidPattern (pattern : List Char) (cause : Regex.CompileError)
  deriving DecidableEq, Repr

/-- What the members of a sequence are called. -/
def SequenceRole.memberName : SequenceRole → String
  | candidates => "candidate"
  | patterns => "pattern"

/-- The message of an error. -/
def MatchError.message : MatchError → String
  | patternNotText kind => "expected a pattern string, got " ++ kind
  | candidateNotText kind => "expected a candidate string, got " ++ kind
  | singleText role =>
    "expected a sequence of " ++ role.memberName ++ " strings, got a single str"
  | notASequence kind => "'" ++ kind ++ "' object is not iterable"
  | unknownFlag letter =>
    "unsupported regex flag " ++ String.ofList (Text.quoted [letter])
  | notARegex kind => "expected a compiled regex, got " ++ kind
  | invalidPattern pattern cause =>
    "invalid pattern '" ++ String.ofList pattern ++ "': " ++ cause.message

end Wildcard
