import Wildcard.Document

/-!
# What documents stand for

A mapping that is read from a document is one: it has no key twice, and lists and mappings are no
keys of it. So what stands under a key is determined, wherever in the document the mapping stands.

* `Value.lookup_eq_some_iff`: in a proper mapping a key has the value that stands under it.
* `Value.distinct_insert`: an entry that is put in its place keeps the keys apart.
* `Document.proper_ofBytes`: every value read has proper mappings only.
-/

namespace Wildcard

/-! ## 1. Proper values -/

namespace Value

/-- Values of which every mapping, at any depth, has keys that can be keys and none of them
    twice. -/
inductive Proper : Value → Prop
  | scalar {v : Value} : v.isKey = true → Proper v
  | list {items : List Value} : (∀ v ∈ items, Proper v) → Proper (list items)
  | mapping {entries : List (Value × Value)} :
      (∀ e ∈ entries, e.1.isKey = true) → (∀ e ∈ entries, Proper e.2) →
      entries.Pairwise (fun a b => (a.1 == b.1) = false) → Proper (mapping entries)

theorem beq_text {k : Value} {key : List Char} : (k == text key) = true ↔ k = text key := by
  show same k (text key) = true ↔ _
  cases k <;> simp [same, number?]

/-- **A key has the value** that stands under it. -/
theorem lookup_eq_some_iff {entries : List (Value × Value)} (h : (mapping entries).Proper)
    {key : List Char} {v : Value} : lookup key entries = some v ↔ (text key, v) ∈ entries := by
  have hdistinct : entries.Pairwise fun a b => (a.1 == b.1) = false := by
    cases h with
    | scalar h => cases h
    | mapping _ _ hdistinct => exact hdistinct
  clear h
  induction entries with
  | nil => simp [lookup]
  | cons entry rest ih =>
    obtain ⟨k, w⟩ := entry
    obtain ⟨hk, hrest⟩ := List.pairwise_cons.mp hdistinct
    rw [lookup, List.mem_cons, Prod.mk.injEq]
    split
    · rename_i hkey
      -- A second entry under the key would be one too many.
      have hno : (text key, v) ∉ rest := fun hmem => by
        rw [hk _ hmem] at hkey
        cases hkey
      simp [beq_text.mp hkey, hno, eq_comm]
    · rename_i hkey
      have hne : text key ≠ k := fun heq => hkey (beq_text.mpr heq.symm)
      simp [ih hrest, hne]

/-- What stands in a mapping after an entry was put in: the entry, under its key or an equal one
    that was there before, or what stood there. -/
theorem mem_insert {key value : Value} {entries : List (Value × Value)} {e : Value × Value}
    (he : e ∈ insert key value entries) :
    e = (key, value) ∨ (∃ v, (e.1, v) ∈ entries ∧ e.2 = value) ∨ e ∈ entries := by
  induction entries with
  | nil => exact .inl (List.mem_singleton.mp he)
  | cons entry rest ih =>
    obtain ⟨k, v⟩ := entry
    rw [insert] at he
    split at he
    · rcases List.mem_cons.mp he with rfl | he
      · exact .inr (.inl ⟨v, List.mem_cons_self, rfl⟩)
      · exact .inr (.inr (List.mem_cons_of_mem _ he))
    · rcases List.mem_cons.mp he with rfl | he
      · exact .inr (.inr List.mem_cons_self)
      · rcases ih he with hnew | ⟨w, hw, hvalue⟩ | hold
        · exact .inl hnew
        · exact .inr (.inl ⟨w, List.mem_cons_of_mem _ hw, hvalue⟩)
        · exact .inr (.inr (List.mem_cons_of_mem _ hold))

/-- **An entry that is put in** keeps the keys apart. -/
theorem distinct_insert {key value : Value} {entries : List (Value × Value)}
    (h : entries.Pairwise fun a b => (a.1 == b.1) = false) :
    (insert key value entries).Pairwise fun a b => (a.1 == b.1) = false := by
  induction entries with
  | nil => exact List.pairwise_singleton _ _
  | cons entry rest ih =>
    obtain ⟨k, v⟩ := entry
    obtain ⟨hk, hrest⟩ := List.pairwise_cons.mp h
    rw [insert]
    split
    · exact List.pairwise_cons.mpr ⟨hk, hrest⟩
    · rename_i hne
      refine List.pairwise_cons.mpr ⟨fun e he => ?_, ih hrest⟩
      rcases mem_insert he with rfl | ⟨w, hw, -⟩ | hold
      · exact Bool.eq_false_iff.mpr hne
      · exact hk (e.1, w) hw
      · exact hk _ hold

theorem Proper.insert {key value : Value} {entries : List (Value × Value)}
    (h : (Value.mapping entries).Proper) (hkey : key.isKey = true) (hvalue : value.Proper) :
    (Value.mapping (insert key value entries)).Proper := by
  cases h with
  | scalar h => cases h
  | mapping hkeys hvalues hdistinct =>
    refine .mapping (fun e he => ?_) (fun e he => ?_) (distinct_insert hdistinct)
    · rcases mem_insert he with rfl | ⟨w, hw, -⟩ | hold
      · exact hkey
      · exact hkeys (e.1, w) hw
      · exact hkeys _ hold
    · rcases mem_insert he with rfl | ⟨w, -, heq⟩ | hold
      · exact hvalue
      · exact heq ▸ hvalue
      · exact hvalues _ hold

end Value

/-! ## 2. Reading -/

namespace Document

theorem isKey_of_plain {text : List Char} {v : Value} (h : Plain.value text = .ok v) :
    v.isKey = true := by
  unfold Plain.value at h
  repeat' split at h
  all_goals cases h <;> rfl

/-- A scalar can be a key. -/
theorem isKey_of_scalarValue {text : List Char} {plain : Bool} {v : Value}
    (h : scalarValue text plain = .ok v) : v.isKey = true := by
  unfold scalarValue at h
  split at h
  · split at h
    · rename_i hplain
      cases h
      exact isKey_of_plain hplain
    all_goals cases h
  · cases h
    rfl

mutual

/-- **The value of a node** is proper. -/
theorem proper_value : ∀ {n : Node} {v : Value}, n.value = .ok v → v.Proper
  | .scalar text plain, v, h => by
    rw [Node.value] at h
    exact .scalar (isKey_of_scalarValue h)
  | .list items, v, h => by
    rw [Node.value] at h
    split at h
    · rename_i vs hvs
      cases h
      exact .list (proper_itemValues hvs)
    · cases h
  | .mapping entries, v, h => by
    rw [Node.value] at h
    split at h
    · rename_i es hes
      cases h
      exact proper_entryValues (.mapping (by simp) (by simp) .nil) hes
    · cases h

/-- The values of items are. -/
theorem proper_itemValues : ∀ {items : List Node} {vs : List Value},
    itemValues items = .ok vs → ∀ v ∈ vs, v.Proper
  | [], vs, h => by
    cases h
    exact nofun
  | n :: rest, vs, h => by
    rw [itemValues] at h
    split at h
    · cases h
    · rename_i v hv
      split at h
      · rename_i ws hws
        cases h
        exact List.forall_mem_cons.mpr ⟨proper_value hv, proper_itemValues hws⟩
      · cases h

/-- A mapping with more entries is, if it was. -/
theorem proper_entryValues : ∀ {entries : List (Node × Node)} {found es : List (Value × Value)},
    (Value.mapping found).Proper → entryValues found entries = .ok es → (Value.mapping es).Proper
  | [], found, es, hfound, h => by
    cases h
    exact hfound
  | (k, n) :: rest, found, es, hfound, h => by
    rw [entryValues] at h
    split at h
    · cases h
    · split at h
      · rename_i hkey
        split at h
        · rename_i value hvalue
          exact proper_entryValues (hfound.insert hkey (proper_value hvalue)) h
        · cases h
      · cases h

end

/-- **The value of a document** is proper. -/
theorem proper_ofBytes {bytes : ByteArray} {v : Value} (h : ofBytes bytes = .ok v) : v.Proper := by
  unfold ofBytes ofText at h
  split at h
  · split at h
    · exact proper_value h
    · cases h
  · cases h

end Document

end Wildcard
