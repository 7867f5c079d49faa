/-!
# Flags of a regex

Six flags, each named by a letter. They are a set: giving a letter twice, or in another place,
changes nothing. `Flags.code` is the set as a number, one bit for each flag.
-/

namespace Wildcard.Regex

/-- The flags under which a regex is read and matched. -/
structure Flags where
  /-- `i`: letters match both cases. -/
  ignoreCase : Bool := false
  /-- `m`: line anchors hold at every line. -/
  multiline : Bool := false
  /-- `s`: a dot also matches a line feed. -/
  dotAll : Bool := false
  /-- `x`: white space and comments are dropped. -/
  verbose : Bool := false
  /-- `a`: case is folded for the letters of ASCII only. -/
  ascii : Bool := false
  /-- `u`: case is folded for all letters, as without the flag. -/
  unicode : Bool := false
  deriving DecidableEq, Repr

namespace Flags

/-- Adds the flag of a letter; `none` for any other character. -/
def insert? (f : Flags) : Char → Option Flags
  | 'i' => some { f with ignoreCase := true }
  | 'm' => some { f with multiline := true }
  | 's' => some { f with dotAll := true }
  | 'x' => some { f with verbose := true }
  | 'a' => some { f with ascii := true }
  | 'u' => some { f with unicode := true }
  | _ => none

/-- Adds the flags of all letters of a text, or gives the first character that names none. -/
def insertAll (f : Flags) : List Char → Except Char Flags
  | [] => .ok f
  | c :: rest =>
    match f.insert? c with
    | some g => g.insertAll rest
    | none => .error c

/-- The flags that the letters of a text name, or the first character that names none. -/
def ofLetters (letters : List Char) : Except Char Flags := insertAll {} letters

/-- The set of flags as a number. -/
def code (f : Flags) : Nat :=
  bit f.ignoreCase 2 + bit f.multiline 8 + bit f.dotAll 16 + bit f.unicode 32 + bit f.verbose 64 +
    bit f.ascii 256
where
  bit (b : Bool) (value : Nat) : Nat := if b then value else 0

end Flags

end Wildcard.Regex
