import Wildcard.Document.Token

/-!
# Nodes of a document

The tokens of a document form a tree of lists and mappings over scalars. A missing node is an
empty plain scalar. A text holds at most one document.

Nodes are read by functions that call each other. The depth of the calls is bounded by a multiple of
the number of tokens, which suffices because of four calls in a row one takes a token.
-/

namespace Wildcard.Document

/-- A node of a document. -/
inductive Node where
  | scalar (text : List Char) (plain : Bool)
  | list (items : List Node)
  | mapping (entries : List (Node × Node))
  deriving Repr

namespace Node

/-- A node that is not written. -/
def missing : Node := scalar [] true

/-- Whether one of the given tokens comes next, or none at all. -/
def comesNext (ts : List Token) (tokens : List Token) : Bool :=
  match tokens with
  | [] => true
  | t :: _ => ts.contains t

/-- Whether a node begins with the next token; the flags are those of `read`. -/
def startsNode (block bare : Bool) : List Token → Bool
  | .scalar .. :: _ | .listOpen :: _ | .mappingOpen :: _ => true
  | .item :: _ => bare
  | .blockList :: _ | .blockMapping :: _ => block
  | _ => false

mutual

/-- Reads a node. Lists and mappings written by indentation are nodes if `block` says so, and if
    `bare` does, items may follow that are not indented any further. -/
def read : Nat → (block bare : Bool) → List Token → Option (Node × List Token)
  | 0, _, _, _ => none
  | n + 1, block, bare, .unspecified :: rest =>
    match rest with
    | .scalar text _ :: rest => some (scalar text true, rest)
    | _ => if startsNode block bare rest then content n block bare rest else some (missing, rest)
  | n + 1, block, bare, tokens => content n block bare tokens

/-- Reads a node by its first token. -/
def content : Nat → (block bare : Bool) → List Token → Option (Node × List Token)
  | 0, _, _, _ => none
  | _ + 1, _, _, .scalar text plain :: rest => some (scalar text plain, rest)
  | n + 1, _, _, .listOpen :: rest => flowItems n true [] rest
  | n + 1, _, _, .mappingOpen :: rest => flowEntries n true [] rest
  | n + 1, _, true, .item :: rest => bareItems n [] (.item :: rest)
  | n + 1, true, _, .blockList :: rest => blockItems n [] rest
  | n + 1, true, _, .blockMapping :: rest => blockEntries n [] rest
  | _, _, _, _ => none

/-- Reads a node unless one of the given tokens comes next, which means that it is missing. -/
def orMissing (n : Nat) (ts : List Token) (block bare : Bool) (tokens : List Token) :
    Option (Node × List Token) :=
  match n with
  | 0 => none
  | n + 1 => if comesNext ts tokens then some (missing, tokens) else read n block bare tokens

/-- Reads the items of a list written by indentation. -/
def blockItems : Nat → List Node → List Token → Option (Node × List Token)
  | 0, _, _ => none
  | n + 1, found, .item :: rest =>
    match orMissing n [.item, .blockEnd] true false rest with
    | some (x, rest) => blockItems n (x :: found) rest
    | none => none
  | _ + 1, found, .blockEnd :: rest => some (list found.reverse, rest)
  | _ + 1, _, _ => none

/-- Reads the items of a list that is not indented any further. -/
def bareItems : Nat → List Node → List Token → Option (Node × List Token)
  | 0, _, _ => none
  | n + 1, found, .item :: rest =>
    match orMissing n [.item, .key, .value, .blockEnd] true false rest with
    | some (x, rest) => bareItems n (x :: found) rest
    | none => none
  | _ + 1, found, tokens => some (list found.reverse, tokens)

/-- Reads the entries of a mapping written by indentation. -/
def blockEntries : Nat → List (Node × Node) → List Token → Option (Node × List Token)
  | 0, _, _ => none
  | n + 1, found, .key :: rest =>
    match orMissing n [.key, .value, .blockEnd] true true rest with
    | some (k, .value :: rest) =>
      match orMissing n [.key, .value, .blockEnd] true true rest with
      | some (v, rest) => blockEntries n ((k, v) :: found) rest
      | none => none
    | some (k, rest) => blockEntries n ((k, missing) :: found) rest
    | none => none
  | _ + 1, found, .blockEnd :: rest => some (mapping found.reverse, rest)
  | _ + 1, _, _ => none

/-- Reads the items of a list between brackets; a key among them begins a mapping of one entry. -/
def flowItems : Nat → Bool → List Node → List Token → Option (Node × List Token)
  | 0, _, _, _ => none
  | _ + 1, _, found, .listClose :: rest => some (list found.reverse, rest)
  | n + 1, first, found, tokens =>
    match first, tokens with
    | true, tokens => flowItem n found tokens
    | false, .comma :: .listClose :: rest => some (list found.reverse, rest)
    | false, .comma :: rest => flowItem n found rest
    | false, _ => none

/-- Reads one item of a list between brackets, and those that follow. -/
def flowItem : Nat → List Node → List Token → Option (Node × List Token)
  | 0, _, _ => none
  | n + 1, found, .key :: rest =>
    match orMissing n [.value, .comma, .listClose] false false rest with
    | some (k, .value :: rest) =>
      match orMissing n [.comma, .listClose] false false rest with
      | some (v, rest) => flowItems n false (mapping [(k, v)] :: found) rest
      | none => none
    | some (k, rest) => flowItems n false (mapping [(k, missing)] :: found) rest
    | none => none
  | n + 1, found, tokens =>
    match read n false false tokens with
    | some (x, rest) => flowItems n false (x :: found) rest
    | none => none

/-- Reads the entries of a mapping between brackets. -/
def flowEntries : Nat → Bool → List (Node × Node) → List Token → Option (Node × List Token)
  | 0, _, _, _ => none
  | _ + 1, _, found, .mappingClose :: rest => some (mapping found.reverse, rest)
  | n + 1, first, found, tokens =>
    match first, tokens with
    | true, tokens => flowEntry n found tokens
    | false, .comma :: .mappingClose :: rest => some (mapping found.reverse, rest)
    | false, .comma :: rest => flowEntry n found rest
    | false, _ => none

/-- Reads one entry of a mapping between brackets, and those that follow. A node that is not said
    to be a key has no value. -/
def flowEntry : Nat → List (Node × Node) → List Token → Option (Node × List Token)
  | 0, _, _ => none
  | n + 1, found, .key :: rest =>
    match orMissing n [.value, .comma, .mappingClose] false false rest with
    | some (k, .value :: rest) =>
      match orMissing n [.comma, .mappingClose] false false rest with
      | some (v, rest) => flowEntries n false ((k, v) :: found) rest
      | none => none
    | some (k, rest) => flowEntries n false ((k, missing) :: found) rest
    | none => none
  | n + 1, found, tokens =>
    match read n false false tokens with
    | some (k, rest) => flowEntries n false ((k, missing) :: found) rest
    | none => none

end

/-- The node of a document without marks, and what follows it. -/
def ofBody (tokens : List Token) : Option (Node × List Token) :=
  read (5 * tokens.length + 8) true false tokens

/-- Whether nothing but marks of an end follows. -/
def endsHere (tokens : List Token) : Bool := tokens.all (· == .documentEnd)

/-- The node of a text, which holds one document or none. -/
def ofTokens? : List Token → Option Node
  | [] => some missing
  | .documentStart :: rest =>
    if comesNext [.documentStart, .documentEnd] rest then
      if endsHere rest then some missing else none
    else
      match ofBody rest with
      | some (x, rest) => if endsHere rest then some x else none
      | none => none
  | tokens =>
    match ofBody tokens with
    | some (x, rest) => if endsHere rest then some x else none
    | none => none

/-- The node of a text. -/
def ofText (text : List Char) : Except TokenError Node :=
  match tokens text with
  | .error e => .error e
  | .ok ts =>
    match ofTokens? ts with
    | some n => .ok n
    | none => .error .malformed

end Node

end Wildcard.Document
