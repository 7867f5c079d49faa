/-!
# Delimiter families and the stack of open groups

A delimiter belongs to a family, and a group is open from its opener until a closer of the same
family meets it as the innermost open one. `Nesting` keeps the open groups, innermost first,
together with whatever the caller wants to remember of the place where each was opened.

* A closer that does not fit the innermost open group changes nothing (`close_eq_none`).
* Closing what was just opened gives back what was remembered (`close_push`).
-/

namespace Wildcard

/-! ## 1. Families -/

/-- The family of a delimiter; every character that is no delimiter is in `other`. -/
inductive Family where
  | angles
  | braces
  | brackets
  | parens
  | other
  deriving DecidableEq, Repr

namespace Family

/-- The family of one character. -/
def ofChar : Char → Family
  | '<' | '>' => angles
  | '{' | '}' => braces
  | '[' | ']' => brackets
  | '(' | ')' => parens
  | _ => other

/-- The family of a text: only a text of exactly one character can be a delimiter. -/
def ofText (s : String) : Family :=
  match s.toList with
  | [c] => ofChar c
  | _ => other

/-- The word a family is called by. -/
def name : Family → String
  | angles => "angles"
  | braces => "braces"
  | brackets => "brackets"
  | parens => "parens"
  | other => "other"

end Family

/-! ## 2. The stack -/

/-- An open group: its family and what is remembered of the place where it was opened. -/
structure Opener (α : Type) where
  family : Family
  place : α
  deriving Repr

/-- The groups open at some point of a text, innermost first. -/
structure Nesting (α : Type) where
  openers : List (Opener α) := []

namespace Nesting

variable {α : Type}

/-- Nothing is open. -/
def empty : Nesting α := ⟨[]⟩

/-- How many groups are open. -/
def depth (n : Nesting α) : Nat := n.openers.length

/-- Opens a group of the given family. -/
def push (n : Nesting α) (f : Family) (place : α) : Nesting α := ⟨⟨f, place⟩ :: n.openers⟩

/-- The innermost open group. -/
def top (n : Nesting α) : Option (Opener α) := n.openers.head?

/-- Closes the innermost group if it is of the given family. -/
def close (n : Nesting α) (f : Family) : Option (Opener α × Nesting α) :=
  match n.openers with
  | o :: rest => if o.family = f then some (o, ⟨rest⟩) else none
  | [] => none

@[simp] theorem depth_push (n : Nesting α) (f : Family) (p : α) :
    (n.push f p).depth = n.depth + 1 := rfl

@[simp] theorem top_push (n : Nesting α) (f : Family) (p : α) : (n.push f p).top = some ⟨f, p⟩ :=
  rfl

/-- What was just opened can be closed, and gives back what was remembered. -/
@[simp] theorem close_push (n : Nesting α) (f : Family) (p : α) :
    (n.push f p).close f = some (⟨f, p⟩, n) := by
  simp [push, close]

/-- A closer fits exactly when the innermost open group is of its family. -/
theorem close_eq_none {n : Nesting α} {f : Family} :
    n.close f = none ↔ ∀ o, n.top = some o → o.family ≠ f := by
  unfold close top
  cases n.openers with
  | nil => simp
  | cons o rest => simp

end Nesting

end Wildcard
