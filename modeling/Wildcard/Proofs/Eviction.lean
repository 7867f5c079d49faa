import Mathlib.Data.List.Induction
import Wildcard.Proofs.RecencyMemo

/-!
# Which entry gives way

An entry that is found goes to the front, and the front is where entries give way. So a memo does
not prefer what was never found: the entry that was found last is the next one to go.

* `conserved`: while nothing is found, entries give way in the order in which they stand.
* `foundSince_iff`: whether an entry was ever found is then settled by where it stands.
* `front_gives_way`: which entry gives way to a new one, and whether it was ever found.
* `found_gives_way`: an entry that was found gives way to a new one, and one that never was stays.
-/

namespace Wildcard

namespace RecencyMemo

variable {α β ε : Type}

/-! ## 1. Runs of look-ups -/

/-- A look-up: a key, and how its result is computed if need be. -/
structure Query (α β ε : Type) where
  key : α
  compute : α → Except ε β

/-- The entries that look-ups add if none of their keys is found. -/
def computed (queries : List (Query α β ε)) : List (α × β) :=
  queries.filterMap fun q => (q.compute q.key).toOption.map (q.key, ·)

theorem computed_append (queries queries' : List (Query α β ε)) :
    computed (queries ++ queries') = computed queries ++ computed queries' :=
  List.filterMap_append

theorem fst_of_mem_computed {q : Query α β ε} {d : α × β} (h : d ∈ computed [q]) : d.1 = q.key := by
  obtain ⟨q', hq, hd⟩ := List.mem_filterMap.mp h
  obtain ⟨result, -, rfl⟩ := Option.map_eq_some_iff.mp hd
  rw [List.mem_singleton.mp hq]

section Runs

variable [BEq α]

/-- The memo after look-ups in a row. -/
def after (m : RecencyMemo α β) (queries : List (Query α β ε)) : RecencyMemo α β :=
  queries.foldl (fun m q => (m.get q.compute q.key).1) m

/-- No key is stored when it is looked up. -/
def AllMiss (m : RecencyMemo α β) (queries : List (Query α β ε)) : Prop :=
  ∀ before q, before ++ [q] <+: queries → (m.after before).contains q.key = false

/-- The entry of a key was found since it was put there. -/
def FoundSince (m : RecencyMemo α β) (queries : List (Query α β ε)) (k : α) : Prop :=
  ∃ before q rest, queries = before ++ q :: rest ∧
    (∃ place e, find? q.key (m.after before).entries = some (place, e) ∧ e.1 = k) ∧
    ∀ next, next <+: rest → k ∈ (m.after (before ++ q :: next)).keys

variable {m : RecencyMemo α β} {queries : List (Query α β ε)} {q : Query α β ε} {k : α}

theorem after_append (m : RecencyMemo α β) (queries queries' : List (Query α β ε)) :
    m.after (queries ++ queries') = (m.after queries).after queries' :=
  List.foldl_append

theorem maxSize_after (m : RecencyMemo α β) (queries : List (Query α β ε)) :
    (m.after queries).maxSize = m.maxSize := by
  induction queries generalizing m with
  | nil => rfl
  | cons q rest ih => exact (ih _).trans (maxSize_call (.get q.key))

theorem allMiss_nil : AllMiss m ([] : List (Query α β ε)) := by
  intro before q h
  cases before <;> simp at h

theorem allMiss_concat :
    AllMiss m (queries ++ [q]) ↔
      AllMiss m queries ∧ (m.after queries).contains q.key = false := by
  constructor
  · intro h
    exact ⟨fun before q' hbefore => h before q' (hbefore.trans (List.prefix_append _ _)),
      h queries q (List.prefix_refl _)⟩
  · rintro ⟨h, hlast⟩ before q' hbefore
    rcases List.prefix_concat_iff.mp hbefore with heq | hbefore
    · obtain ⟨rfl, hq⟩ := List.append_inj' heq rfl
      cases hq
      exact hlast
    · exact h before q' hbefore

/-- **A run either finds nothing**, or has a last look-up that finds something. -/
theorem allMiss_or_found (m : RecencyMemo α β) (queries : List (Query α β ε)) :
    AllMiss m queries ∨ ∃ before q rest place e, queries = before ++ q :: rest ∧
      find? q.key (m.after before).entries = some (place, e) ∧
      AllMiss (m.after (before ++ [q])) rest := by
  induction queries using List.reverseRecOn with
  | nil => exact .inl allMiss_nil
  | append_singleton queries q ih =>
    cases hfind : find? q.key (m.after queries).entries with
    | some found => exact .inr ⟨queries, q, [], found.1, found.2, rfl, hfind, allMiss_nil⟩
    | none =>
      have hmiss : (m.after queries).contains q.key = false := find?_eq_none.mp hfind
      rcases ih with h | ⟨before, q', rest, place, e, rfl, hfound, h⟩
      · exact .inl (allMiss_concat.mpr ⟨h, hmiss⟩)
      · refine .inr ⟨before, q', rest ++ [q], place, e, by simp, hfound,
          allMiss_concat.mpr ⟨h, ?_⟩⟩
        rwa [← after_append, List.append_assoc, List.singleton_append]

/-! ## 2. Where entries stand -/

/-- The entry that is found goes to the front. -/
theorem head?_of_find? {place : Nat} {e : α × β}
    (h : find? q.key m.entries = some (place, e)) : (m.after [q]).entries.head? = some e := by
  show (m.get q.compute q.key).1.entries.head? = some e
  rw [get_of_find? h]
  have hplace := (find?_eq_some h).1
  show (exchange m.entries place e).head? = some e
  cases hentries : m.entries with
  | nil =>
    rw [hentries] at hplace
    cases hplace
  | cons first rest => cases place <;> rfl

/-- A new entry goes to the end, and what is too many gives way at the front. -/
theorem entries_of_new (hroom : 1 ≤ m.maxSize) (h : m.contains q.key = false) {result : β}
    (hresult : q.compute q.key = .ok result) :
    (m.after [q]).entries = m.entries.drop (m.size + 1 - m.maxSize) ++ [(q.key, result)] := by
  show (m.get q.compute q.key).1.entries = _
  rw [get_of_absent h, hresult]
  exact push_eq hroom _

/-- The same without asking whether there is a new entry. -/
theorem entries_of_miss (hroom : 1 ≤ m.maxSize) (h : m.contains q.key = false) :
    ∃ n, (m.after [q]).entries = m.entries.drop n ++ computed [q] := by
  cases hresult : q.compute q.key with
  | error e =>
    refine ⟨0, ?_⟩
    show (m.get q.compute q.key).1.entries = _
    rw [get_of_absent h, hresult]
    simp [keep, computed, hresult, Except.toOption]
  | ok result =>
    refine ⟨m.size + 1 - m.maxSize, (entries_of_new hroom h hresult).trans ?_⟩
    simp [computed, hresult, Except.toOption]

/-- **While nothing is found**, entries give way in the order in which they stand, and new ones
    follow. -/
theorem conserved (hroom : 1 ≤ m.maxSize) (h : AllMiss m queries) :
    ∃ dropped, m.entries ++ computed queries = dropped ++ (m.after queries).entries := by
  induction queries using List.reverseRecOn with
  | nil => exact ⟨[], List.append_nil _⟩
  | append_singleton queries q ih =>
    obtain ⟨h, hmiss⟩ := allMiss_concat.mp h
    obtain ⟨dropped, hdropped⟩ := ih h
    obtain ⟨n, hn⟩ := entries_of_miss ((maxSize_after m queries).symm ▸ hroom) hmiss
    refine ⟨dropped ++ (m.after queries).entries.take n, ?_⟩
    rw [computed_append, ← List.append_assoc, hdropped, after_append, hn, List.append_assoc,
      List.append_assoc, ← List.append_assoc (List.take _ _), List.take_append_drop]

/-- There are never more entries than there may be. -/
theorem size_after (hsize : m.size ≤ m.maxSize) (queries : List (Query α β ε)) :
    (m.after queries).size ≤ m.maxSize := by
  induction queries generalizing m with
  | nil => exact hsize
  | cons q rest ih =>
    have hmax : (m.get q.compute q.key).1.maxSize = m.maxSize := maxSize_call (.get q.key)
    refine le_of_le_of_eq (ih (hmax ▸ ?_)) hmax
    show (m.get q.compute q.key).1.size ≤ m.maxSize
    cases hfind : find? q.key m.entries with
    | some found =>
      rw [get_of_find? hfind]
      exact le_of_eq_of_le (exchange_perm (find?_eq_some hfind).1).length_eq hsize
    | none =>
      rw [get_of_absent (find?_eq_none.mp hfind)]
      cases q.compute q.key with
      | error e => exact hsize
      | ok result => exact length_push_le m _

/-! ## 3. What was found -/

theorem not_foundSince_nil : ¬ FoundSince m ([] : List (Query α β ε)) k := by
  rintro ⟨before, q, rest, heq, -⟩
  cases before <;> cases heq

/-- What a further look-up changes about it. -/
theorem foundSince_concat :
    FoundSince m (queries ++ [q]) k ↔
      (FoundSince m queries k ∨
        ∃ place e, find? q.key (m.after queries).entries = some (place, e) ∧ e.1 = k) ∧
      k ∈ (m.after (queries ++ [q])).keys := by
  constructor
  · rintro ⟨before, q', rest, heq, hfound, hkept⟩
    refine ⟨?_, heq ▸ hkept rest (List.prefix_refl _)⟩
    rcases List.eq_nil_or_concat rest with rfl | ⟨rest', last, rfl⟩
    · obtain ⟨rfl, hq⟩ := List.append_inj' heq rfl
      cases hq
      exact .inr hfound
    · rw [List.concat_eq_append, ← List.cons_append, ← List.append_assoc] at heq
      obtain ⟨rfl, -⟩ := List.append_inj' heq rfl
      exact .inl ⟨before, q', rest', rfl, hfound, fun next hnext =>
        hkept next (hnext.trans (List.concat_eq_append ▸ List.prefix_append _ _))⟩
  · rintro ⟨⟨before, q', rest, rfl, hfound, hkept⟩ | hfound, hend⟩
    · refine ⟨before, q', rest ++ [q], by simp, hfound, fun next hnext => ?_⟩
      rcases List.prefix_concat_iff.mp hnext with rfl | hnext
      · simpa using hend
      · exact hkept next hnext
    · refine ⟨queries, q, [], rfl, hfound, fun next hnext => ?_⟩
      rw [List.prefix_nil.mp hnext]
      exact hend

/-- What was found since is still found. -/
theorem FoundSince.contains [PartialEquivBEq α] (h : FoundSince m queries k) :
    (m.after queries).contains k = true := by
  obtain ⟨before, q, rest, rfl, ⟨place, e, hfound, rfl⟩, hkept⟩ := h
  obtain ⟨d, hd, hkey⟩ := List.mem_map.mp (hkept rest (List.prefix_refl _))
  have hfinds := (find?_eq_some hfound).2
  refine List.any_eq_true.mpr ⟨d, hd, ?_⟩
  rw [hkey]
  exact PartialEquivBEq.trans hfinds (PartialEquivBEq.symm hfinds)

/-- **While nothing is found**, an entry counts as found if it stood there before that and did so
    then. -/
theorem foundSince_iff [PartialEquivBEq α] (hroom : 1 ≤ m.maxSize)
    {before : List (Query α β ε)} (h : AllMiss (m.after before) queries) {i : Nat} {d : α × β}
    (hd : ((m.after before).entries ++ computed queries)[i]? = some d)
    (hi : ((m.after before).entries ++ computed queries).length ≤
      i + (m.after (before ++ queries)).size) :
    FoundSince m (before ++ queries) d.1 ↔
      i < (m.after before).size ∧ FoundSince m before d.1 := by
  have hroom' (qs : List (Query α β ε)) : 1 ≤ (m.after qs).maxSize := (maxSize_after m qs).symm ▸ hroom
  induction queries using List.reverseRecOn with
  | nil =>
    rw [computed, List.filterMap_nil, List.append_nil] at hd
    obtain ⟨hplace, -⟩ := List.getElem?_eq_some_iff.mp hd
    rw [List.append_nil, size, and_iff_right hplace]
  | append_singleton queries q ih =>
    obtain ⟨dropped, hdropped⟩ := conserved (hroom' before) h
    rw [← after_append] at hdropped
    have hstays : d.1 ∈ (m.after (before ++ (queries ++ [q]))).keys := by
      rw [hdropped, List.length_append, size] at hi
      rw [hdropped, List.getElem?_append_right (by omega)] at hd
      exact List.mem_map_of_mem (List.mem_of_getElem? hd)
    obtain ⟨h, hmiss⟩ := allMiss_concat.mp h
    rw [← after_append] at hmiss
    have hnone : ¬ ∃ place e,
        find? q.key (m.after (before ++ queries)).entries = some (place, e) ∧ e.1 = d.1 := by
      rintro ⟨place, e, hfound, -⟩
      rw [find?_of_contains_eq_false hmiss] at hfound
      cases hfound
    rw [← List.append_assoc] at hstays hi ⊢
    rw [foundSince_concat, or_iff_left hnone, and_iff_left hstays]
    rw [computed_append, ← List.append_assoc] at hd hi
    by_cases hold : i < ((m.after before).entries ++ computed queries).length
    · refine ih h (by rwa [List.getElem?_append_left hold] at hd) ?_
      obtain ⟨n, hn⟩ := entries_of_miss (hroom' (before ++ queries)) hmiss
      rw [size, after_append, hn] at hi
      simp only [size, List.length_append, List.length_drop] at hi ⊢
      omega
    · -- the newest entry: its key was not stored
      rw [List.getElem?_append_right (Nat.not_lt.mp hold)] at hd
      rw [fst_of_mem_computed (List.mem_of_getElem? hd)]
      rw [List.length_append] at hold
      refine iff_of_false (fun hfound => ?_) fun hplace => ?_
      · rw [hfound.contains] at hmiss
        cases hmiss
      · have := hplace.1
        rw [size] at this
        omega

/-- An entry counts as found as soon as it is found, and stands in front then. -/
theorem foundSince_of_find? {before : List (Query α β ε)} {place : Nat} {e : α × β}
    (h : find? q.key (m.after before).entries = some (place, e)) :
    (m.after (before ++ [q])).entries.head? = some e ∧ FoundSince m (before ++ [q]) e.1 := by
  have hhead : (m.after (before ++ [q])).entries.head? = some e := by
    rw [after_append]
    exact head?_of_find? h
  exact ⟨hhead, foundSince_concat.mpr ⟨.inr ⟨place, e, h, rfl⟩,
    List.mem_map_of_mem (List.mem_of_head? hhead)⟩⟩

/-! ## 4. What gives way -/

/-- Where the entry in front stood when something was found for the last time. -/
theorem front_of_allMiss [PartialEquivBEq α] (hroom : 1 ≤ m.maxSize)
    (before : List (Query α β ε)) (h : AllMiss (m.after before) queries) {d : α × β}
    {rest : List (α × β)} (hfront : (m.after (before ++ queries)).entries = d :: rest) :
    ∃ dropped, (m.after before).entries ++ computed queries = dropped ++ d :: rest ∧
      (FoundSince m (before ++ queries) d.1 ↔
        dropped.length < (m.after before).size ∧ FoundSince m before d.1) := by
  obtain ⟨dropped, hdropped⟩ := conserved ((maxSize_after m before).symm ▸ hroom) h
  rw [← after_append, hfront] at hdropped
  refine ⟨dropped, hdropped, foundSince_iff hroom h ?_ ?_⟩
  · rw [hdropped, List.getElem?_append_right (Nat.le_refl _), Nat.sub_self,
      List.getElem?_cons_zero]
  · rw [hdropped, List.length_append, size, hfront]

/-- **What gives way to a new entry** at the end of any run: nothing while there is room, and then
    the entry in front. If nothing was found so far, this is the one that was put there first.
    Otherwise the last look-up that found something brought its entry to the front, and this is the
    one that gives way if none did since, whatever else was never found. Later ones give way in the
    order in which they stood behind it, and such an entry counts as found if it stood there
    already and counted as found then. -/
theorem front_gives_way [PartialEquivBEq α] {maxSize : Int} (hsize : 1 ≤ maxSize) :
    ∃ empty : RecencyMemo α β, ofSize? maxSize = some empty ∧ empty.entries = [] ∧
      ∀ (queries : List (Query α β ε)) (q : Query α β ε) (result : β),
        let m := empty.after queries
        m.contains q.key = false → q.compute q.key = .ok result →
        (m.size < maxSize → (m.after [q]).entries = m.entries ++ [(q.key, result)]) ∧
        (maxSize ≤ m.size → ∃ d rest, m.entries = d :: rest ∧
          (m.after [q]).entries = rest ++ [(q.key, result)] ∧
          (AllMiss empty queries ∧ ¬ FoundSince empty queries d.1 ∧
              (∃ dropped, computed queries = dropped ++ d :: rest) ∨
            ∃ before hit behind place e, queries = before ++ hit :: behind ∧
              find? hit.key (empty.after before).entries = some (place, e) ∧
              let m' := empty.after (before ++ [hit])
              AllMiss m' behind ∧ ∃ dropped,
                m'.entries ++ computed behind = dropped ++ d :: rest ∧
                (dropped = [] → d = e ∧ FoundSince empty queries d.1) ∧
                (FoundSince empty queries d.1 ↔
                  dropped.length < m'.size ∧ FoundSince empty (before ++ [hit]) d.1))) := by
  refine ⟨_, ofSize?_eq_some hsize, rfl, fun queries q result => ?_⟩
  generalize hempty : ({ maxSize := maxSize.toNat } : RecencyMemo α β) = empty
  intro m habsent hresult
  have hmax : empty.maxSize = maxSize.toNat := by rw [← hempty]
  have hnothing : empty.entries = [] := by rw [← hempty]
  have hroom : 1 ≤ empty.maxSize := by omega
  have hbounded : m.size ≤ empty.maxSize :=
    size_after (by rw [size, hnothing]; exact Nat.zero_le _) queries
  have hnew := entries_of_new ((maxSize_after empty queries).symm ▸ hroom) habsent hresult
  rw [maxSize_after] at hnew
  refine ⟨fun hfree => ?_, fun hfull => ?_⟩
  · rw [hnew, show m.size + 1 - empty.maxSize = 0 by omega, List.drop_zero]
  obtain ⟨d, rest, hentries⟩ : ∃ d rest, m.entries = d :: rest :=
    List.exists_cons_of_length_pos (show 0 < m.size by omega)
  rw [show m.size + 1 - empty.maxSize = 1 by omega, hentries, List.drop_one, List.tail_cons] at hnew
  refine ⟨d, rest, hentries, hnew, ?_⟩
  rcases allMiss_or_found empty queries with h | ⟨before, hit, behind, place, e, heq, hfound, h⟩
  · obtain ⟨dropped, hdropped, hiff⟩ := front_of_allMiss hroom [] h hentries
    have hstart : (empty.after ([] : List (Query α β ε))).entries = [] := hnothing
    rw [hstart, List.nil_append] at hdropped
    rw [size, hstart] at hiff
    exact .inl ⟨h, fun hfound => Nat.not_lt_zero _ (hiff.mp hfound).1, dropped, hdropped⟩
  · have hsplit : before ++ [hit] ++ behind = queries := by simpa using heq.symm
    obtain ⟨dropped, hdropped, hiff⟩ :=
      front_of_allMiss hroom _ h ((congrArg (empty.after · |>.entries) hsplit).trans hentries)
    rw [hsplit] at hiff
    refine .inr ⟨before, hit, behind, place, e, heq, hfound, h, dropped, hdropped, ?_, hiff⟩
    -- none gave way since: the front is the entry that was found
    rintro rfl
    obtain ⟨hhead, hsince⟩ := foundSince_of_find? hfound
    obtain ⟨others, hothers⟩ := List.head?_eq_some_iff.mp hhead
    rw [hothers] at hdropped
    cases hdropped
    exact ⟨rfl, hiff.mpr ⟨by rw [size, hothers]; exact Nat.succ_pos _, hsince⟩⟩

end Runs

/-- A letter is looked up and turned into a capital one. -/
def capital (c : Char) : Query Char Char String := ⟨c, fun c => .ok c.toUpper⟩

/-- Two letters, neither of which is found, and a third one. -/
theorem front_gives_way_capitals :
    ∃ empty : RecencyMemo Char Char, ofSize? 2 = some empty ∧
      let queries := [capital 'a', capital 'b']
      (empty.after (queries ++ [capital 'c'])).entries = [('b', 'B'), ('c', 'C')] ∧
        ¬ FoundSince empty queries 'a' := by
  obtain ⟨empty, hempty, -, h⟩ := @front_gives_way Char Char String _ _ 2 (by decide)
  cases hempty
  refine ⟨_, rfl, rfl, ?_⟩
  obtain ⟨-, hfull⟩ := h [capital 'a', capital 'b'] (capital 'c') 'C' rfl rfl
  obtain ⟨d, rest, hentries, -, hfront⟩ := hfull (by decide)
  cases hentries
  have hmiss : AllMiss ({ maxSize := 2 } : RecencyMemo Char Char)
      ([] ++ [capital 'a'] ++ [capital 'b']) :=
    allMiss_concat.mpr ⟨allMiss_concat.mpr ⟨allMiss_nil, rfl⟩, rfl⟩
  rcases hfront with ⟨-, hnever, -⟩ | ⟨before, hit, behind, place, e, heq, hfound, -⟩
  · exact hnever
  · have habsent := hmiss before hit ⟨behind, by simpa using heq.symm⟩
    exact Bool.noConfusion ((contains_of_find? hfound).symm.trans habsent)

/-- **What was never found is not preferred**: a memo for two letters is asked for one, and twice
    for another one, which is what gives way to a third. -/
theorem found_gives_way :
    ¬ ∀ (maxSize : Int) (empty : RecencyMemo Char Char), 2 ≤ maxSize →
      ofSize? maxSize = some empty →
      ∀ (queries : List (Query Char Char String)) (q : Query Char Char String),
        let m := empty.after queries
        m.contains q.key = false → ∀ d ∈ m.entries, d ∉ (m.after [q]).entries →
          (∃ e ∈ m.entries, e ≠ d ∧ ¬ FoundSince empty queries e.1) →
          ¬ FoundSince empty queries d.1 := by
  intro h
  have hfinds : find? (capital 'b').key (({ maxSize := 2 } : RecencyMemo Char Char).after
      [capital 'a', capital 'b']).entries = some (1, ('b', 'B')) := rfl
  have hfound : FoundSince ({ maxSize := 2 } : RecencyMemo Char Char)
      [capital 'a', capital 'b', capital 'b'] 'b' := (foundSince_of_find? hfinds).2
  have hnever : ¬ FoundSince ({ maxSize := 2 } : RecencyMemo Char Char)
      [capital 'a', capital 'b', capital 'b'] 'a' := by
    rw [show [capital 'a', capital 'b', capital 'b'] =
        [] ++ [capital 'a'] ++ [capital 'b'] ++ [capital 'b'] from rfl,
      foundSince_concat, foundSince_concat, foundSince_concat]
    -- nothing is found at first, and then the other letter
    rintro ⟨⟨⟨h | ⟨_, _, ⟨⟩, -⟩, -⟩ | ⟨_, _, ⟨⟩, -⟩, -⟩ | ⟨_, _, ⟨⟩, ⟨⟩⟩, -⟩
    exact not_foundSince_nil h
  exact h 2 _ (by decide) rfl [capital 'a', capital 'b', capital 'b'] (capital 'c') rfl
    ('b', 'B') (by decide) (by decide) ⟨('a', 'A'), by decide, by decide, hnever⟩ hfound

end RecencyMemo

end Wildcard
