import Wildcard.RecencyMemo
import Wildcard.Proofs.Value

/-!
# What a memo keeps

A key is found by an equality that need not tell all keys apart, and that need not hold between a
key and itself: all it takes is that it can be turned around and carried on. What is computed must
not depend on which of several equal keys it is asked for.

* `Proper`: no two keys are equal, there are not too many, and each result is the one of its key.
* `Proper.get`, `Proper.callAll`: looking a key up keeps this, and so does a run of calls.
* `getM_recording`: a key is computed once if it is not stored, and otherwise not at all.
* `callAll_answers`: what every call of a run from the empty memo answers and leaves behind.
-/

namespace Wildcard

namespace RecencyMemo

variable {α β ε : Type}

/-! ## 1. Finding, exchanging, adding -/

section Finding

variable [BEq α] {m : RecencyMemo α β} {key : α} {place : Nat} {e : α × β}

/-- What is found stands at its place under an equal key. -/
theorem find?_eq_some {entries : List (α × β)} (h : find? key entries = some (place, e)) :
    entries[place]? = some e ∧ (e.1 == key) = true := by
  induction entries generalizing place with
  | nil => cases h
  | cons first rest ih =>
    rw [find?] at h
    by_cases hkey : (first.1 == key) = true
    · rw [if_pos hkey] at h
      cases h
      exact ⟨rfl, hkey⟩
    · rw [if_neg hkey] at h
      obtain ⟨⟨i, e'⟩, hrest, heq⟩ := Option.map_eq_some_iff.mp h
      cases heq
      exact ih hrest

theorem contains_eq_false : m.contains key = false ↔ ∀ k ∈ m.keys, (k == key) = false := by
  simp [contains, keys]

theorem find?_of_contains_eq_false (h : m.contains key = false) : find? key m.entries = none :=
  find?_eq_none.mpr h

theorem contains_of_find? (h : find? key m.entries = some (place, e)) : m.contains key = true := by
  rw [← Bool.not_eq_false]
  intro habsent
  rw [find?_of_contains_eq_false habsent] at h
  cases h

/-- Looking up a key that is stored. -/
theorem get_of_find? (h : find? key m.entries = some (place, e)) (compute : α → Except ε β) :
    m.get compute key = ({ m with entries := exchange m.entries place e }, .ok e.2) := by
  unfold get getM
  rw [h]
  rfl

/-- Looking up a key that is not stored. -/
theorem get_of_absent (h : m.contains key = false) (compute : α → Except ε β) :
    m.get compute key = (m.keep key (compute key), compute key) := by
  unfold get getM
  rw [find?_of_contains_eq_false h]
  rfl

end Finding

/-- Exchanging moves entries about and nothing else. -/
theorem exchange_perm {entries : List (α × β)} {place : Nat} {e : α × β}
    (h : entries[place]? = some e) : (exchange entries place e).Perm entries := by
  cases entries with
  | nil => cases h
  | cons first rest =>
    cases place with
    | zero =>
      cases h
      exact List.Perm.refl _
    | succ i =>
      rw [List.getElem?_cons_succ] at h
      obtain ⟨hi, hget⟩ := List.getElem?_eq_some_iff.mp h
      have hset : rest.set i first = rest.take i ++ first :: rest.drop (i + 1) := by
        rw [List.set_eq_take_append_cons_drop, if_pos hi]
      have hrest : rest = rest.take i ++ e :: rest.drop (i + 1) := by
        rw [← hget, List.getElem_cons_drop, List.take_append_drop]
      calc (e :: rest.set i first).Perm (e :: first :: (rest.take i ++ rest.drop (i + 1))) := by
            rw [hset]
            exact List.perm_middle.cons e
        _ |>.Perm (first :: e :: (rest.take i ++ rest.drop (i + 1))) := List.Perm.swap first e _
        _ |>.Perm (first :: rest) := by
            conv => rhs; rw [hrest]
            exact List.perm_middle.symm.cons first

/-- The newest entry stands behind those that did not have to give way for it. -/
theorem push_eq {m : RecencyMemo α β} (hroom : 1 ≤ m.maxSize) (e : α × β) :
    m.push e = m.entries.drop (m.size + 1 - m.maxSize) ++ [e] := by
  have hlength : (m.entries ++ [e]).length = m.size + 1 := List.length_append
  have hdropped : m.size + 1 - m.maxSize ≤ m.entries.length := by
    rw [size]
    omega
  rw [push, hlength]
  exact List.drop_append_of_le_length hdropped

/-- Adding an entry leaves no more of them than there may be. -/
theorem length_push_le (m : RecencyMemo α β) (e : α × β) : (m.push e).length ≤ m.maxSize := by
  rw [push, List.length_drop]
  omega

/-! ## 2. What holds at every point -/

/-- Every result that is stored is the one computed for its key. -/
def Sound (compute : α → Except ε β) (m : RecencyMemo α β) : Prop :=
  ∀ e ∈ m.entries, compute e.1 = .ok e.2

/-- A memo as it should be: no two keys are equal, there are at most as many entries as it may
    keep, which is at least one, and every result is the one computed for its key. -/
structure Proper [BEq α] (compute : α → Except ε β) (m : RecencyMemo α β) : Prop where
  distinct : m.keys.Pairwise fun a b => (a == b) = false
  bounded : m.size ≤ m.maxSize
  room : 1 ≤ m.maxSize
  sound : m.Sound compute

section Step

variable [BEq α] {compute : α → Except ε β} {m : RecencyMemo α β}

theorem proper_empty {maxSize : Nat} (h : 1 ≤ maxSize) :
    Proper compute ({ maxSize } : RecencyMemo α β) where
  distinct := List.Pairwise.nil
  bounded := Nat.zero_le _
  room := h
  sound := by
    intro e he
    cases he

theorem Proper.clear (h : Proper compute m) : Proper compute m.clear := proper_empty h.room

/-- **What a look-up gives** is what is computed for the key. -/
theorem Sound.get_eq (h : m.Sound compute)
    (hcongr : ∀ a b, (a == b) = true → compute a = compute b) (key : α) :
    (m.get compute key).2 = compute key := by
  cases hfind : find? key m.entries with
  | some found =>
    obtain ⟨place, e⟩ := found
    obtain ⟨hplace, hkey⟩ := find?_eq_some hfind
    rw [get_of_find? hfind, ← hcongr e.1 key hkey]
    exact (h e (List.mem_of_getElem? hplace)).symm
  | none => rw [get_of_absent (find?_eq_none.mp hfind)]

/-- A look-up leaves a sound memo sound. -/
theorem Sound.get (h : m.Sound compute) (key : α) : (m.get compute key).1.Sound compute := by
  cases hfind : find? key m.entries with
  | some found =>
    rw [get_of_find? hfind]
    intro e he
    exact h e ((exchange_perm (find?_eq_some hfind).1).mem_iff.mp he)
  | none =>
    rw [get_of_absent (find?_eq_none.mp hfind)]
    cases hcompute : compute key with
    | error _ => exact h
    | ok result =>
      intro e he
      rcases List.mem_append.mp (List.mem_of_mem_drop he) with hold | hnew
      · exact h e hold
      · rw [List.mem_singleton.mp hnew]
        exact hcompute

/-- Adding an entry for a key that is not stored. -/
theorem Proper.keep (h : Proper compute m) {key : α} (habsent : m.contains key = false) :
    Proper compute (m.keep key (compute key)) := by
  have hsound : (m.keep key (compute key)).Sound compute := by
    have hget := h.sound.get key
    rwa [get_of_absent habsent] at hget
  cases hcompute : compute key with
  | error e => exact h
  | ok result =>
    rw [hcompute] at hsound
    have hpush := push_eq h.room (key, result)
    refine ⟨?_, length_push_le m _, h.room, hsound⟩
    · rw [RecencyMemo.keep, keys, hpush, List.map_append, List.map_drop]
      refine List.pairwise_append.mpr ⟨h.distinct.sublist (List.drop_sublist _ _),
        List.pairwise_singleton _ _, ?_⟩
      intro k hk l hl
      rw [List.mem_singleton.mp hl]
      exact contains_eq_false.mp habsent k (List.mem_of_mem_drop hk)

/-- **Looking a key up** leaves a memo as it should be. -/
theorem Proper.get [PartialEquivBEq α] (h : Proper compute m) (key : α) :
    Proper compute (m.get compute key).1 := by
  cases hfind : find? key m.entries with
  | some found =>
    have hperm := exchange_perm (find?_eq_some hfind).1
    have hsound := h.sound.get key
    rw [get_of_find? hfind] at hsound ⊢
    have hturn : ∀ {a b : α}, (a == b) = false → (b == a) = false := by
      intro a b hab
      rwa [BEq.comm]
    exact ⟨((hperm.map _).pairwise_iff hturn).mpr h.distinct,
      le_of_eq_of_le hperm.length_eq h.bounded, h.room, hsound⟩
  | none =>
    have habsent : m.contains key = false := find?_eq_none.mp hfind
    rw [get_of_absent habsent]
    exact h.keep habsent

end Step

/-! ## 3. What is stored and what is computed -/

section Answers

variable [BEq α] {compute : α → Except ε β} {m : RecencyMemo α β} {key : α}

/-- The key itself is stored or one that is equal to it. -/
def Stores (m : RecencyMemo α β) (key : α) : Prop := ∃ k ∈ m.keys, k = key ∨ (k == key) = true

/-- Where each key equals itself, that is what asking for the key says. -/
theorem stores_iff_contains [ReflBEq α] : m.Stores key ↔ m.contains key = true := by
  constructor
  · rintro ⟨k, hk, rfl | hkey⟩
    · rw [← Bool.not_eq_false, contains_eq_false]
      intro habsent
      have hself := habsent k hk
      rw [BEq.rfl] at hself
      cases hself
    · rw [← Bool.not_eq_false, contains_eq_false]
      intro habsent
      rw [habsent k hk] at hkey
      cases hkey
  · intro h
    obtain ⟨e, he, hkey⟩ := List.any_eq_true.mp h
    exact ⟨e.1, List.mem_map_of_mem he, .inr hkey⟩

/-- **The newest entry survives**, however little room there is. -/
theorem Proper.stores (h : Proper compute m) {result : β}
    (hresult : (m.get compute key).2 = .ok result) : (m.get compute key).1.Stores key := by
  cases hfind : find? key m.entries with
  | some found =>
    obtain ⟨place, e⟩ := found
    obtain ⟨hplace, hkey⟩ := find?_eq_some hfind
    rw [get_of_find? hfind]
    have hmem := (exchange_perm hplace).mem_iff.mpr (List.mem_of_getElem? hplace)
    exact ⟨e.1, List.mem_map_of_mem hmem, .inr hkey⟩
  | none =>
    rw [get_of_absent (find?_eq_none.mp hfind)] at hresult ⊢
    refine ⟨key, ?_, .inl rfl⟩
    rw [show compute key = .ok result from hresult, RecencyMemo.keep, keys, push_eq h.room,
      List.map_append]
    exact List.mem_append_right _ (List.mem_singleton_self key)

/-- Where computing a key fails, nothing is exchanged, added or given up. -/
theorem Proper.get_of_error (h : Proper compute m)
    (hcongr : ∀ a b, (a == b) = true → compute a = compute b) {e : ε}
    (hfails : compute key = .error e) : (m.get compute key).1 = m := by
  cases hfind : find? key m.entries with
  | some found =>
    have hresult := h.sound.get_eq hcongr key
    rw [get_of_find? hfind, hfails] at hresult
    cases hresult
  | none =>
    rw [get_of_absent (find?_eq_none.mp hfind), hfails]
    rfl

/-- Computing that puts the keys it is asked for on record. -/
def recording (compute : α → Except ε β) (key : α) : StateM (List α) (Except ε β) := do
  modify (· ++ [key])
  pure (compute key)

/-- **Computing is asked for** once if the key is not stored, and otherwise not at all. -/
theorem getM_recording (record : List α) :
    (m.getM (recording compute) key).run record =
      (m.get compute key, record ++ if m.contains key then [] else [key]) := by
  cases hfind : find? key m.entries with
  | some found =>
    rw [get_of_find? hfind, contains_of_find? hfind, if_pos rfl, List.append_nil]
    unfold getM
    rw [hfind]
    rfl
  | none =>
    have habsent : m.contains key = false := find?_eq_none.mp hfind
    rw [get_of_absent habsent, habsent, if_neg Bool.false_ne_true]
    unfold getM
    rw [hfind]
    rfl

end Answers

/-! ## 4. Runs -/

/-- A call on a memo. -/
inductive Call (α : Type) where
  | get (key : α)
  | clear
  deriving DecidableEq, Repr

section Runs

variable [BEq α]

/-- The memo after a call. -/
def call (m : RecencyMemo α β) (compute : α → Except ε β) : Call α → RecencyMemo α β
  | .get key => (m.get compute key).1
  | .clear => m.clear

/-- The memo after calls in a row. -/
def callAll (m : RecencyMemo α β) (compute : α → Except ε β) (calls : List (Call α)) :
    RecencyMemo α β :=
  calls.foldl (fun m c => m.call compute c) m

variable {compute : α → Except ε β} {m : RecencyMemo α β}

theorem maxSize_call (c : Call α) : (m.call compute c).maxSize = m.maxSize := by
  cases c with
  | clear => rfl
  | get key =>
    rw [call]
    cases hfind : find? key m.entries with
    | some found => rw [get_of_find? hfind]
    | none =>
      rw [get_of_absent (find?_eq_none.mp hfind)]
      cases compute key <;> rfl

theorem maxSize_callAll (calls : List (Call α)) :
    (m.callAll compute calls).maxSize = m.maxSize := by
  induction calls generalizing m with
  | nil => rfl
  | cons c rest ih => exact ih.trans (maxSize_call c)

/-- **A run** leaves a memo as it should be. -/
theorem Proper.callAll [PartialEquivBEq α] (h : Proper compute m) (calls : List (Call α)) :
    Proper compute (m.callAll compute calls) := by
  induction calls generalizing m with
  | nil => exact h
  | cons c rest ih =>
    cases c with
    | get key => exact ih (h.get key)
    | clear => exact ih h.clear

omit [BEq α] in
/-- A memo that may keep an entry starts empty and with the size it was asked for. -/
theorem ofSize?_eq_some {maxSize : Int} (h : 1 ≤ maxSize) :
    ofSize? maxSize = some ({ maxSize := maxSize.toNat } : RecencyMemo α β) :=
  if_neg (by omega)

/-- **Every call of a run** from an empty memo. Where the run stands, no two keys are equal, there
    are no more of them than asked for, and every result is the one of its key. What is looked up
    next is answered as it is computed: if that fails, all stays as it is, and if not, the key is
    stored. It is computed once if it is not stored, and otherwise not at all. -/
theorem callAll_answers [PartialEquivBEq α] {maxSize : Int} (hsize : 1 ≤ maxSize)
    (hcongr : ∀ a b, (a == b) = true → compute a = compute b) :
    ∃ empty : RecencyMemo α β, ofSize? maxSize = some empty ∧ empty.entries = [] ∧
      ∀ calls : List (Call α), let m := empty.callAll compute calls
        (m.keys.Pairwise fun a b => (a == b) = false) ∧ (m.size : Int) ≤ maxSize ∧
          (∀ e ∈ m.entries, compute e.1 = .ok e.2) ∧
          ∀ key, (m.get compute key).2 = compute key ∧
            (∀ e, compute key = .error e → (m.get compute key).1 = m) ∧
            (∀ result, compute key = .ok result → (m.get compute key).1.Stores key) ∧
            ∀ record, (m.getM (recording compute) key).run record =
              (m.get compute key, record ++ if m.contains key then [] else [key]) := by
  refine ⟨_, ofSize?_eq_some hsize, rfl, fun calls => ?_⟩
  have hempty : Proper compute ({ maxSize := maxSize.toNat } : RecencyMemo α β) :=
    proper_empty (by omega)
  have hm := hempty.callAll calls
  have hbounded : (RecencyMemo.callAll _ compute calls).size ≤ maxSize.toNat :=
    maxSize_callAll calls ▸ hm.bounded
  refine ⟨hm.distinct, by omega, hm.sound, fun key => ?_⟩
  have hanswer := hm.sound.get_eq hcongr key
  exact ⟨hanswer, fun e => hm.get_of_error hcongr,
    fun result hresult => hm.stores (hanswer.trans hresult), getM_recording⟩

end Runs

/-- What a text or a number is called; other keys have no name. -/
def nameOfKey (k : Value.Key) : Except String String :=
  match k.1 with
  | .text cs => .ok (String.ofList cs)
  | .null | .date _ | .list _ | .mapping _ => .error k.1.kindName
  | _ => .ok "number"

theorem nameOfKey_congr (a b : Value.Key) (h : (a == b) = true) : nameOfKey a = nameOfKey b := by
  obtain ⟨a, ha⟩ := a
  obtain ⟨b, hb⟩ := b
  rcases (Value.beq_of_isKey ha).mp h with ⟨rfl, -⟩ | ⟨d, e, rfl, rfl, hde⟩ | ⟨x, y, hx, hy, -⟩
  · rfl
  · have hform := (Date.same_iff.mp hde).1
    cases d <;> cases e <;> first | rfl | cases hform
  · have hnumber : ∀ {v : Value} {x : Decimal} (hv : v.isKey = true),
        v.number? = some x → nameOfKey ⟨v, hv⟩ = .ok "number" := by
      intro v x hv hx
      cases v <;> first | rfl | cases hx
    rw [hnumber ha hx, hnumber hb hy]

/-- Three calls on a memo for two entries, the second of which fails; the whole number one is then
    found under the truth value, and a third key takes its place. -/
theorem callAll_answers_names :
    ∃ empty : RecencyMemo Value.Key String, ofSize? 2 = some empty ∧
      let m := empty.callAll nameOfKey
        [.get ⟨.int 1, rfl⟩, .get ⟨.null, rfl⟩, .get ⟨.text "a".toList, rfl⟩]
      (m.keys.map (·.1) = [.int 1, .text "a".toList]) ∧ (m.size : Int) ≤ 2 ∧
        (m.get nameOfKey ⟨.bool true, rfl⟩).2 = .ok "number" ∧
        (m.get nameOfKey ⟨.null, rfl⟩).1 = m ∧
        (m.get nameOfKey ⟨.text "b".toList, rfl⟩).1.Stores ⟨.text "b".toList, rfl⟩ ∧
        ((m.getM (recording nameOfKey) ⟨.bool true, rfl⟩).run []).2 = [] ∧
        ((m.get nameOfKey ⟨.text "b".toList, rfl⟩).1.keys.map (·.1) =
          [.text "a".toList, .text "b".toList]) := by
  obtain ⟨empty, hempty, hnone, h⟩ :=
    @callAll_answers Value.Key String String _ nameOfKey _ 2 (by decide) nameOfKey_congr
  cases hempty
  obtain ⟨-, hsize, -, hget⟩ :=
    h [.get ⟨.int 1, rfl⟩, .get ⟨.null, rfl⟩, .get ⟨.text "a".toList, rfl⟩]
  exact ⟨_, rfl, rfl, hsize, (hget _).1, (hget _).2.1 _ rfl, (hget _).2.2.1 _ rfl,
    congrArg Prod.snd ((hget _).2.2.2 []), rfl⟩

end RecencyMemo

end Wildcard
