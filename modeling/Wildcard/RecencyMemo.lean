/-!
# A memo that keeps what was used lately

A memo keeps keys with results, at most `maxSize` of them, in an order. Looking up a key that is
stored exchanges its entry with the first one. Looking up any other key computes its result and
puts a new entry at the end, and entries at the front give way while there are too many. Where the
computation fails, nothing is stored.

* `find?_eq_none`: a look-up misses exactly the keys that are not stored.
* `getM_of_contains`: a stored key is not computed.
-/

namespace Wildcard

/-- A memo of keys and results. -/
structure RecencyMemo (α β : Type) where
  maxSize : Nat
  entries : List (α × β) := []
  deriving Repr

namespace RecencyMemo

variable {α β ε : Type}

/-- The size of a memo that was asked for without one. -/
def defaultSize : Nat := 100

/-- A memo for at most `maxSize` entries; it must be allowed to keep at least one. -/
def ofSize? (maxSize : Int) : Option (RecencyMemo α β) :=
  if maxSize < 1 then none else some { maxSize := maxSize.toNat }

/-- The keys in order. -/
def keys (m : RecencyMemo α β) : List α := m.entries.map (·.1)

/-- How many entries there are. -/
def size (m : RecencyMemo α β) : Nat := m.entries.length

/-- Whether a key is stored. -/
def contains [BEq α] (m : RecencyMemo α β) (key : α) : Bool := m.entries.any (·.1 == key)

/-- The first entry whose key equals the given one, with its place. -/
def find? [BEq α] (key : α) : List (α × β) → Option (Nat × α × β)
  | [] => none
  | e :: rest =>
    if e.1 == key then some (0, e) else (find? key rest).map fun (i, e) => (i + 1, e)

/-- A list with the entry at some place exchanged with the first one. -/
def exchange (entries : List (α × β)) (place : Nat) (entry : α × β) : List (α × β) :=
  match entries with
  | [] => []
  | first :: _ => (entries.set place first).set 0 entry

/-- The entries with one more at the end, less those at the front that are too many. -/
def push (m : RecencyMemo α β) (entry : α × β) : List (α × β) :=
  let entries := m.entries ++ [entry]
  entries.drop (entries.length - m.maxSize)

/-- The memo once a key that is not stored was computed; where that failed, it stays as it is. -/
def keep (m : RecencyMemo α β) (key : α) : Except ε β → RecencyMemo α β
  | .error _ => m
  | .ok result => { m with entries := m.push (key, result) }

/-- Looks a key up, and computes its result if it is not stored. Computing may have effects, and
    nothing else has any. -/
def getM {n : Type → Type} [Monad n] [BEq α] (m : RecencyMemo α β)
    (compute : α → n (Except ε β)) (key : α) : n (RecencyMemo α β × Except ε β) :=
  match find? key m.entries with
  | some (place, entry) =>
    pure ({ m with entries := exchange m.entries place entry }, .ok entry.2)
  | none => do
    let result ← compute key
    pure (m.keep key result, result)

/-- The same where computing has no effects. -/
def get [BEq α] (m : RecencyMemo α β) (compute : α → Except ε β) (key : α) :
    RecencyMemo α β × Except ε β :=
  Id.run (m.getM (fun k => pure (compute k)) key)

/-- Forgets all entries. -/
def clear (m : RecencyMemo α β) : RecencyMemo α β := { m with entries := [] }

@[simp] theorem keys_clear (m : RecencyMemo α β) : m.clear.keys = [] := rfl

theorem find?_eq_none [BEq α] {key : α} {entries : List (α × β)} :
    find? key entries = none ↔ entries.any (·.1 == key) = false := by
  induction entries with
  | nil => simp [find?]
  | cons e rest ih =>
    simp only [find?]
    split
    · rename_i h
      simp [h]
    · rename_i h
      simp [h, ih]

/-- A key that is stored is not computed. -/
theorem getM_of_contains {n : Type → Type} [Monad n] [BEq α] {m : RecencyMemo α β} {key : α}
    (h : m.contains key = true) (compute compute' : α → n (Except ε β)) :
    m.getM compute key = m.getM compute' key := by
  unfold getM
  split
  · rfl
  · rename_i hn
    rw [find?_eq_none] at hn
    rw [contains, hn] at h
    exact absurd h Bool.false_ne_true

end RecencyMemo

end Wildcard
