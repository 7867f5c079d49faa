import Wildcard.Proofs.Glob.Grammar
import Wildcard.Proofs.Glob.WellNested

/-!
# Groups that are nested too deep

No more than `maxNesting` groups may be open at a time, and an opener beyond that is a bare character.
Its closer is not: like any closer it is held against the innermost group that is open. So a group at
the limit is closed too early if it holds another group of its own kind, however deep, and what stands
behind it is out of step. If no group at the limit does, the groups within the limit are paired as
they should be, and all others are bare characters.

* `flattened`: a tree with the groups below some level as bare characters; `pairs_flattened` says
  which pairs are left.
* `Reading.foldl_flattened`: what reading makes of a tree if groups at the limit keep their closers.
* `exists_misclosed`: a group that is closed by the closer of another one if they do not.
* `pairsOf_of_deep`: the pairs of a text of the grammar, however deep it is.
-/

namespace Wildcard.Glob

/-! ## 1. Levels -/

/-- The level of a pair among others: one, and one more for each pair that encloses it. -/
def level (pairs : List (Nat × Nat)) (p : Nat × Nat) : Nat :=
  (pairs.filter (Encloses · p)).length + 1

section Levels

variable {k : Grouping} {body rest : Glob} {members : List Char} {start : Nat} {p : Nat × Nat}

theorem level_group (k : Grouping) (body rest : Glob) (start : Nat) :
    level ((group k body rest).pairs start) (start, start + body.length + 1) = 1 := by
  rw [level, filter_encloses_behind (Nat.le_refl _), List.length_nil]

theorem level_bracket (hp : p ∈ rest.pairs (start + members.length + 2)) :
    level ((bracket members rest).pairs start) p =
      level (rest.pairs (start + members.length + 2)) p := by
  rw [level, filter_encloses_bracket hp, level]

theorem level_body (hp : p ∈ body.pairs (start + 1)) :
    level ((group k body rest).pairs start) p = level (body.pairs (start + 1)) p + 1 := by
  rw [level, filter_encloses_body hp, List.length_cons, level]

theorem level_rest (hp : p ∈ rest.pairs (start + body.length + 2)) :
    level ((group k body rest).pairs start) p = level (rest.pairs (start + body.length + 2)) p := by
  rw [level, filter_encloses_rest hp, level]

end Levels

/-! ## 2. Trees that are cut off -/

/-- A tree with the groups below the given level as bare characters. -/
def flattened : Nat → Glob → Glob
  | _, done => done
  | n, char c rest => char c (rest.flattened n)
  | n, escaped c rest => escaped c (rest.flattened n)
  | n, bracket body rest => bracket body (rest.flattened n)
  | 0, group k body rest =>
    char k.opener (body.flattened 0 ++ char k.closer (rest.flattened 0))
  | n + 1, group k body rest => group k (body.flattened n) (rest.flattened (n + 1))

theorem length_flattened (n : Nat) (g : Glob) : (g.flattened n).length = g.length := by
  induction g generalizing n with
  | done => cases n <;> rfl
  | char c rest ih => cases n <;> simp [flattened, length, ih]
  | escaped c rest ih => cases n <;> simp [flattened, length, ih]
  | bracket body rest ih => cases n <;> simp [flattened, length, ih]
  | group k body rest ihb ihr =>
    cases n with
    | zero =>
      simp only [flattened, length, length_append, ihb, ihr]
      omega
    | succ n => simp [flattened, length, ihb, ihr]

/-- **The pairs that are left** are those of the classes and those down to the level. -/
theorem pairs_flattened (n start : Nat) (g : Glob) :
    (g.flattened n).pairs start = ((g.tagged start).filter fun x =>
      x.1 = none ∨ level (g.pairs start) x.2 ≤ n).map Prod.snd := by
  induction g generalizing n start with
  | done => cases n <;> rfl
  | char c rest ih => cases n <;> exact ih _ _
  | escaped c rest ih => cases n <;> exact ih _ _
  | bracket members rest ih =>
    have hrest : (rest.tagged (start + members.length + 2)).filter (fun x =>
        x.1 = none ∨ level ((bracket members rest).pairs start) x.2 ≤ n) =
        (rest.tagged (start + members.length + 2)).filter fun x =>
          x.1 = none ∨ level (rest.pairs (start + members.length + 2)) x.2 ≤ n := by
      refine List.filter_congr fun x hx => ?_
      rw [level_bracket (mem_pairs_of_tagged hx)]
    rw [tagged, List.filter_cons_of_pos (by simp), hrest, List.map_cons, ← ih]
    cases n <;> rfl
  | group k body rest ihb ihr =>
    have hrest : (rest.tagged (start + body.length + 2)).filter (fun x =>
        x.1 = none ∨ level ((group k body rest).pairs start) x.2 ≤ n) =
        (rest.tagged (start + body.length + 2)).filter fun x =>
          x.1 = none ∨ level (rest.pairs (start + body.length + 2)) x.2 ≤ n := by
      refine List.filter_congr fun x hx => ?_
      rw [level_rest (mem_pairs_of_tagged hx)]
    have hbody : (body.tagged (start + 1)).filter (fun x =>
        x.1 = none ∨ level ((group k body rest).pairs start) x.2 ≤ n) =
        (body.tagged (start + 1)).filter fun x =>
          x.1 = none ∨ level (body.pairs (start + 1)) x.2 ≤ n - 1 := by
      refine List.filter_congr fun x hx => ?_
      have hpos : 1 ≤ level (body.pairs (start + 1)) x.2 := Nat.le_add_left 1 _
      rw [level_body (mem_pairs_of_tagged hx), decide_eq_decide]
      refine or_congr Iff.rfl ?_
      omega
    have hfirst := level_group k body rest start
    rw [tagged, List.filter_cons, List.filter_append, hbody, hrest]
    cases n with
    | zero =>
      rw [if_neg (by simp [hfirst]), List.map_append, ← ihb, ← ihr, flattened, pairs, pairs_append,
        pairs, length_flattened]
      congr 2
      omega
    | succ n =>
      rw [if_pos (by simp [hfirst]), List.map_cons, List.map_append, Nat.add_sub_cancel, ← ihb,
        ← ihr, flattened, pairs, length_flattened]

/-! ## 3. Groups at the limit -/

/-- The tree holds no group of the kind. -/
def Lacks (k : Grouping) : Glob → Prop
  | done => True
  | char _ rest => rest.Lacks k
  | escaped _ rest => rest.Lacks k
  | bracket _ rest => rest.Lacks k
  | group k' body rest => k' ≠ k ∧ body.Lacks k ∧ rest.Lacks k

/-- No group at the given level holds another one of its own kind. -/
def KeepsClosers : Nat → Glob → Prop
  | _, done => True
  | n, char _ rest => rest.KeepsClosers n
  | n, escaped _ rest => rest.KeepsClosers n
  | n, bracket _ rest => rest.KeepsClosers n
  | n, group k body rest =>
    ((n = 1 → body.Lacks k) ∧ body.KeepsClosers (n - 1)) ∧ rest.KeepsClosers n

theorem lacks_iff {k : Grouping} {g : Glob} (start : Nat) :
    g.Lacks k ↔ ∀ q, (some k, q) ∉ g.tagged start := by
  induction g generalizing start with
  | done => simp [Lacks, tagged]
  | char c rest ih => exact ih _
  | escaped c rest ih => exact ih _
  | bracket members rest ih =>
    rw [Lacks, ih (start + members.length + 2), tagged]
    simp
  | group k' body rest ihb ihr =>
    rw [Lacks, ihb (start + 1), ihr (start + body.length + 2), tagged]
    simp only [List.mem_cons, List.mem_append, Prod.mk.injEq, Option.some.injEq, not_or, not_and]
    constructor
    · rintro ⟨hk, hbody, hrest⟩ q
      exact ⟨fun heq => absurd heq.symm hk, hbody q, hrest q⟩
    · intro h
      exact ⟨fun heq => (h _).1 heq.symm rfl, fun q => (h q).2.1, fun q => (h q).2.2⟩

/-- The groups at the limit keep their closers if none of them encloses one of its kind. -/
theorem keepsClosers_of_tagged {n : Nat} {g : Glob} (start : Nat)
    (h : ∀ k p q, (some k, p) ∈ g.tagged start → (some k, q) ∈ g.tagged start →
      level (g.pairs start) p = n → ¬ Encloses p q) : g.KeepsClosers n := by
  induction g generalizing n start with
  | done => trivial
  | char c rest ih => exact ih _ h
  | escaped c rest ih => exact ih _ h
  | bracket members rest ih =>
    refine ih (start + members.length + 2) fun k p q hp hq hlevel => ?_
    rw [← level_bracket (mem_pairs_of_tagged hp)] at hlevel
    exact h k p q (List.mem_cons_of_mem _ hp) (List.mem_cons_of_mem _ hq) hlevel
  | group k body rest ihb ihr =>
    have hinside {x : Option Grouping × Nat × Nat} (hx : x ∈ body.tagged (start + 1)) :
        x ∈ (group k body rest).tagged start :=
      List.mem_cons_of_mem _ (List.mem_append_left _ hx)
    have hafter {x : Option Grouping × Nat × Nat} (hx : x ∈ rest.tagged (start + body.length + 2)) :
        x ∈ (group k body rest).tagged start :=
      List.mem_cons_of_mem _ (List.mem_append_right _ hx)
    refine ⟨⟨fun hn => (lacks_iff (start + 1)).mpr fun q hq => ?_, ?_⟩, ?_⟩
    · have hbounds := mem_pairs_inside (mem_pairs_of_tagged hq)
      refine h k _ q List.mem_cons_self (hinside hq) ?_ ⟨?_, ?_⟩
      · rw [level_group, hn]
      · simp only
        omega
      · simp only
        omega
    · refine ihb (start + 1) fun k' p q hp hq hlevel => ?_
      have hpos : 1 ≤ level (body.pairs (start + 1)) p := Nat.le_add_left 1 _
      refine h k' p q (hinside hp) (hinside hq) ?_
      rw [level_body (mem_pairs_of_tagged hp)]
      omega
    · refine ihr (start + body.length + 2) fun k' p q hp hq hlevel => ?_
      refine h k' p q (hafter hp) (hafter hq) ?_
      rw [level_rest (mem_pairs_of_tagged hp), hlevel]

theorem not_encloses_of_keepsClosers {n : Nat} {g : Glob} {start : Nat} (h : g.KeepsClosers n)
    {k : Grouping} {p q : Nat × Nat} (hp : (some k, p) ∈ g.tagged start)
    (hq : (some k, q) ∈ g.tagged start) (hlevel : level (g.pairs start) p = n) :
    ¬ Encloses p q := by
  induction g generalizing n start with
  | done => cases hp
  | char c rest ih => exact ih h hp hq hlevel
  | escaped c rest ih => exact ih h hp hq hlevel
  | bracket members rest ih =>
    rcases List.mem_cons.mp hp with heq | hp
    · cases heq
    · rcases List.mem_cons.mp hq with heq | hq
      · cases heq
      · rw [level_bracket (mem_pairs_of_tagged hp)] at hlevel
        exact ih h hp hq hlevel
  | group k' body rest ihb ihr =>
    obtain ⟨⟨hlimit, hbody⟩, hrest⟩ := h
    rintro ⟨hopener, hcloser⟩
    rcases List.mem_cons.mp hp with heq | hp
    · cases heq
      rw [level_group] at hlevel
      rcases List.mem_cons.mp hq with heq | hq
      · cases heq
        exact Nat.lt_irrefl _ hopener
      · rcases List.mem_append.mp hq with hq | hq
        · exact (lacks_iff (start + 1)).mp (hlimit hlevel.symm) q hq
        · have := mem_pairs_inside (mem_pairs_of_tagged hq)
          simp only at hcloser
          omega
    · rcases List.mem_append.mp hp with hp | hp
      · have hinside := mem_pairs_inside (mem_pairs_of_tagged hp)
        rw [level_body (mem_pairs_of_tagged hp)] at hlevel
        rcases List.mem_cons.mp hq with heq | hq
        · cases heq
          simp only at hopener
          omega
        · rcases List.mem_append.mp hq with hq | hq
          · exact ihb hbody hp hq (by omega) ⟨hopener, hcloser⟩
          · have := mem_pairs_inside (mem_pairs_of_tagged hq)
            omega
      · have hinside := mem_pairs_inside (mem_pairs_of_tagged hp)
        rw [level_rest (mem_pairs_of_tagged hp)] at hlevel
        rcases List.mem_cons.mp hq with heq | hq
        · cases heq
          simp only at hopener
          omega
        · rcases List.mem_append.mp hq with hq | hq
          · have := mem_pairs_inside (mem_pairs_of_tagged hq)
            omega
          · exact ihr hrest hp hq hlevel ⟨hopener, hcloser⟩

/-! ## 4. Reading at the limit -/

/-- Marks as items that stand bare. -/
def chain : List Mark → Glob
  | [] => done
  | .char c :: ms => char c (chain ms)
  | .escaped c :: ms => escaped c (chain ms)
  | .bracket body :: ms => bracket body (chain ms)

theorem chain_append (ms ms' : List Mark) : chain (ms ++ ms') = chain ms ++ chain ms' := by
  induction ms with
  | nil => rfl
  | cons m ms ih => cases m <;> exact congrArg _ ih

theorem chain_toMarks (g : Glob) : chain g.toMarks = g.flattened 0 := by
  induction g with
  | done => rfl
  | char c rest ih => exact congrArg _ ih
  | escaped c rest ih => exact congrArg _ ih
  | bracket members rest ih => exact congrArg _ ih
  | group k body rest ihb ihr =>
    rw [toMarks, List.cons_append, chain, chain_append, chain, ihb, ihr, flattened]

theorem length_chain (ms : List Mark) : (chain ms).length = width ms := by
  induction ms with
  | nil => rfl
  | cons m ms ih =>
    rw [← List.singleton_append, width_append, ← ih]
    cases m with
    | char c =>
      show (chain ms).length + 1 = 1 + (chain ms).length
      omega
    | escaped c =>
      show (chain ms).length + 2 = 2 + (chain ms).length
      omega
    | bracket body =>
      rw [width_bracket]
      rfl

/-- While as many groups are open as may be, all that can happen is that the innermost one is
    closed. -/
theorem Reading.step_full {k : Grouping} {outer : Nesting Before} {front : Glob}
    (hfull : outer.depth + 1 = maxNesting) {m : Mark} (hm : m ≠ .char k.closer) (items : Glob) :
    step ⟨outer.push (.ofChar k.opener) ⟨k, front⟩, items⟩ m =
      ⟨outer.push (.ofChar k.opener) ⟨k, front⟩, (chain [m]).reverseOnto items⟩ := by
  cases m with
  | escaped c => rfl
  | bracket body => rfl
  | char c =>
    have hdepth : ¬ (outer.push (.ofChar k.opener) ⟨k, front⟩).depth < maxNesting := by
      rw [Nesting.depth_push]
      omega
    have hclose : (if c = '\x7d' ∨ c = ')' then
        (outer.push (.ofChar k.opener) ⟨k, front⟩).close (.ofChar c) else none) = none := by
      by_cases hc : c = '\x7d' ∨ c = ')'
      · rw [if_pos hc]
        refine Nesting.close_eq_none.mpr fun o ho hfamily => hm ?_
        cases ho
        rw [closer_of_family hc hfamily]
      · rw [if_neg hc]
    simp only [step, if_neg hdepth, hclose]
    cases opens? c <;> rfl

theorem Reading.foldl_full {k : Grouping} {outer : Nesting Before} {front : Glob}
    (hfull : outer.depth + 1 = maxNesting) {ms : List Mark} (hms : ∀ m ∈ ms, m ≠ .char k.closer)
    (items : Glob) :
    ms.foldl step ⟨outer.push (.ofChar k.opener) ⟨k, front⟩, items⟩ =
      ⟨outer.push (.ofChar k.opener) ⟨k, front⟩, (chain ms).reverseOnto items⟩ := by
  induction ms generalizing items with
  | nil => rfl
  | cons m ms ih =>
    obtain ⟨hm, hms⟩ := List.forall_mem_cons.mp hms
    rw [List.foldl_cons, step_full hfull hm, ih hms, ← reverseOnto_append, ← chain_append,
      List.singleton_append]

theorem closer_injective {k k' : Grouping} (h : k.closer = k'.closer) : k = k' := by
  cases k <;> cases k' <;> first | rfl | cases h

theorem opener_ne_closer (k k' : Grouping) : k.opener ≠ k'.closer := by
  cases k <;> cases k' <;> decide

theorem closer_mem (k : Grouping) : k.closer ∈ ['\\', '[', '\x7b', '\x7d', '(', ')'] := by
  cases k <;> decide

/-- In a balanced tree a closer is the one of a group. -/
theorem ne_closer_of_lacks {k : Grouping} {g : Glob} (hbalanced : g.Balanced) (h : g.Lacks k) :
    ∀ m ∈ g.toMarks, m ≠ .char k.closer := by
  induction g with
  | done => exact List.forall_mem_nil _
  | char c rest ih =>
    refine List.forall_mem_cons.mpr ⟨fun heq => ?_, ih hbalanced.2 h⟩
    cases heq
    exact hbalanced.1 (closer_mem k)
  | escaped c rest ih => exact List.forall_mem_cons.mpr ⟨nofun, ih hbalanced h⟩
  | bracket members rest ih => exact List.forall_mem_cons.mpr ⟨nofun, ih hbalanced.2 h⟩
  | group k' body rest ihb ihr =>
    obtain ⟨hk, hbody, hrest⟩ := h
    rw [toMarks]
    refine List.forall_mem_append.mpr ⟨List.forall_mem_cons.mpr ⟨fun heq => ?_, ihb hbalanced.1 hbody⟩,
      List.forall_mem_cons.mpr ⟨fun heq => ?_, ihr hbalanced.2 hrest⟩⟩
    · exact opener_ne_closer k' k (Mark.char.inj heq)
    · exact hk (closer_injective (Mark.char.inj heq))

/-- **What reading makes of a balanced tree** in which the groups at the limit keep their closers:
    the tree with the groups below the limit as bare characters. -/
theorem Reading.foldl_flattened {g : Glob} (hbalanced : g.Balanced) {n : Nat}
    (h : g.KeepsClosers (n + 1)) {r : Reading} (hroom : r.nesting.depth + (n + 1) = maxNesting) :
    g.toMarks.foldl step r = { r with items := (g.flattened (n + 1)).reverseOnto r.items } := by
  induction g generalizing n r with
  | done => rfl
  | char c rest ih =>
    have hplain : c ∉ ['\x7b', '\x7d', '(', ')'] := fun hmem =>
      hbalanced.1 (List.mem_cons_of_mem _ (List.mem_cons_of_mem _ hmem))
    rw [toMarks, List.foldl_cons, step_plain hplain]
    exact ih hbalanced.2 h hroom
  | escaped c rest ih => exact ih hbalanced h hroom
  | bracket members rest ih => exact ih hbalanced.2 h hroom
  | group k body rest ihb ihr =>
    obtain ⟨⟨hlimit, hbody⟩, hrest⟩ := h
    have hopener := step_opener k (r := r) (by omega)
    have hinside : body.toMarks.foldl step ⟨r.nesting.push (.ofChar k.opener) ⟨k, r.items⟩, done⟩ =
        ⟨r.nesting.push (.ofChar k.opener) ⟨k, r.items⟩, (body.flattened n).reverseOnto done⟩ := by
      cases n with
      | zero =>
        rw [foldl_full hroom (ne_closer_of_lacks hbalanced.1 (hlimit rfl)), chain_toMarks]
      | succ n =>
        exact ihb hbalanced.1 hbody (by rw [Nesting.depth_push]; omega)
    rw [toMarks, List.foldl_append, List.foldl_cons, List.foldl_cons, hopener, hinside, step_closer,
      reverseOnto_reverseOnto, append_done, flattened, reverseOnto]
    exact ihr hbalanced.2 hrest hroom

/-! ## 5. A group that is closed too early -/

theorem Reading.fits_foldl {r : Reading} (h : r.Fits) (ms : List Mark) : (ms.foldl step r).Fits := by
  induction ms generalizing r with
  | nil => exact h
  | cons m ms ih => exact ih (fits_step h m)

theorem Reading.length_foldl {r : Reading} (h : r.Fits) (ms : List Mark) :
    (ms.foldl step r).soFar.length = r.soFar.length + width ms := by
  rw [← width_toMarks, (extends_foldl h ms).1, width_append, width_toMarks]

/-- **A pair that was read stays**, whatever is read behind it. -/
theorem Reading.mem_pairs_foldl {r : Reading} (h : r.Fits) {p : Nat × Nat} {start : Nat}
    (hp : p ∈ r.soFar.pairs start) (ms : List Mark) : p ∈ (ms.foldl step r).soFar.pairs start := by
  induction ms generalizing r with
  | nil => exact hp
  | cons m ms ih =>
    refine ih (fits_step h m) ?_
    cases grows_step h m with
    | item i _ _ hstep =>
      rw [hstep, pairs_append]
      exact List.mem_append_left _ hp
    | group front body hold hnew =>
      rw [hold, pairs_append] at hp
      rw [hnew, pairs_append]
      rcases List.mem_append.mp hp with hp | hp
      · exact List.mem_append_left _ hp
      · exact List.mem_append_right _ (List.mem_cons_of_mem _ (List.mem_append_left _ hp))

/-- The first closer of a kind in a balanced tree is the one of a group. -/
theorem exists_first_closer {k : Grouping} {g : Glob} (hbalanced : g.Balanced) (h : ¬ g.Lacks k)
    (start : Nat) :
    ∃ ms ms' q, g.toMarks = ms ++ .char k.closer :: ms' ∧ (∀ m ∈ ms, m ≠ .char k.closer) ∧
      (some k, q) ∈ g.tagged start ∧ q.2 = start + width ms := by
  induction g generalizing start with
  | done => exact absurd trivial h
  | char c rest ih =>
    obtain ⟨ms, ms', q, hmarks, hms, hq, hplace⟩ := ih hbalanced.2 h (start + 1)
    refine ⟨.char c :: ms, ms', q, by rw [toMarks, hmarks]; rfl,
      List.forall_mem_cons.mpr ⟨fun heq => ?_, hms⟩, hq, ?_⟩
    · cases heq
      exact hbalanced.1 (closer_mem k)
    · rw [hplace, ← List.singleton_append, width_append]
      exact Nat.add_assoc _ _ _
  | escaped c rest ih =>
    obtain ⟨ms, ms', q, hmarks, hms, hq, hplace⟩ := ih hbalanced h (start + 2)
    refine ⟨.escaped c :: ms, ms', q, by rw [toMarks, hmarks]; rfl,
      List.forall_mem_cons.mpr ⟨by simp, hms⟩, hq, ?_⟩
    rw [hplace, ← List.singleton_append, width_append]
    exact Nat.add_assoc _ _ _
  | bracket members rest ih =>
    obtain ⟨ms, ms', q, hmarks, hms, hq, hplace⟩ := ih hbalanced.2 h (start + members.length + 2)
    refine ⟨.bracket members :: ms, ms', q, by rw [toMarks, hmarks]; rfl,
      List.forall_mem_cons.mpr ⟨by simp, hms⟩, List.mem_cons_of_mem _ hq, ?_⟩
    rw [hplace, ← List.singleton_append, width_append, width_bracket]
    omega
  | group k' body rest ihb ihr =>
    have hopener : (.char k'.opener : Mark) ≠ .char k.closer := fun heq =>
      opener_ne_closer k' k (Mark.char.inj heq)
    by_cases hbody : body.Lacks k
    · have hbefore := ne_closer_of_lacks hbalanced.1 hbody
      by_cases hk : k' = k
      · subst hk
        refine ⟨.char k'.opener :: body.toMarks, rest.toMarks, _, rfl,
          List.forall_mem_cons.mpr ⟨hopener, hbefore⟩, List.mem_cons_self, ?_⟩
        rw [← List.singleton_append, width_append, width_toMarks]
        show start + body.length + 1 = start + (1 + body.length)
        omega
      · have hrest : ¬ rest.Lacks k := fun hrest => h ⟨hk, hbody, hrest⟩
        obtain ⟨ms, ms', q, hmarks, hms, hq, hplace⟩ :=
          ihr hbalanced.2 hrest (start + body.length + 2)
        refine ⟨.char k'.opener :: (body.toMarks ++ .char k'.closer :: ms), ms', q, ?_,
          List.forall_mem_cons.mpr ⟨hopener, List.forall_mem_append.mpr ⟨hbefore,
            List.forall_mem_cons.mpr ⟨fun heq => hk (closer_injective (Mark.char.inj heq)), hms⟩⟩⟩,
          List.mem_cons_of_mem _ (List.mem_append_right _ hq), ?_⟩
        · rw [toMarks, hmarks]
          simp
        · rw [hplace, ← List.singleton_append, width_append, width_append, width_toMarks,
            ← List.singleton_append (l := ms), width_append]
          show start + body.length + 2 + width ms = start + (1 + (body.length + (1 + width ms)))
          omega
    · obtain ⟨ms, ms', q, hmarks, hms, hq, hplace⟩ := ihb hbalanced.1 hbody (start + 1)
      refine ⟨.char k'.opener :: ms, ms' ++ .char k'.closer :: rest.toMarks, q, ?_,
        List.forall_mem_cons.mpr ⟨hopener, hms⟩,
        List.mem_cons_of_mem _ (List.mem_append_left _ hq), ?_⟩
      · rw [toMarks, hmarks]
        simp
      · rw [hplace, ← List.singleton_append, width_append]
        exact Nat.add_assoc _ _ _

/-- A group at the limit that holds another one of its kind is closed by the first closer of that
    kind in its contents. -/
theorem misclosed_at_limit {k : Grouping} {body : Glob} (hbalanced : body.Balanced)
    (h : ¬ body.Lacks k) {r : Reading} (hfits : r.Fits) (hroom : r.nesting.depth + 1 = maxNesting)
    (rest : Glob) :
    ∃ q, (some k, q) ∈ body.tagged (r.soFar.length + 1) ∧
      (r.soFar.length, q.2) ∈ ((group k body rest).toMarks.foldl Reading.step r).soFar.pairs 0 := by
  obtain ⟨ms, ms', q, hmarks, hms, hq, hplace⟩ :=
    exists_first_closer hbalanced h (r.soFar.length + 1)
  have hopener := Reading.step_opener k (r := r) (by omega)
  have hsplit : (group k body rest).toMarks = (.char k.opener :: (ms ++ [.char k.closer])) ++
      (ms' ++ .char k.closer :: rest.toMarks) := by simp [toMarks, hmarks]
  have hclosed : (.char k.opener :: (ms ++ [.char k.closer])).foldl Reading.step r =
      r.add (group k (chain ms)) := by
    rw [List.foldl_cons, hopener, List.foldl_append, Reading.foldl_full hroom hms,
      List.foldl_cons, List.foldl_nil, Reading.step_closer, reverseOnto_reverseOnto, append_done]
    rfl
  have hsoFar : (r.add (group k (chain ms))).soFar = r.soFar ++ group k (chain ms) done :=
    Reading.soFar_add fun _ _ => rfl
  have hfits' := Reading.fits_foldl hfits (.char k.opener :: (ms ++ [.char k.closer]))
  rw [hclosed] at hfits'
  refine ⟨q, hq, ?_⟩
  rw [hsplit, List.foldl_append, hclosed]
  refine Reading.mem_pairs_foldl hfits' ?_ _
  rw [hsoFar, pairs_append, Nat.zero_add, hplace, pairs, length_chain, Nat.add_right_comm]
  exact List.mem_append_right _ List.mem_cons_self

/-- **A group is closed by the closer of another one** where the groups at the limit do not keep their
    closers. -/
theorem exists_misclosed {g : Glob} (hbalanced : g.Balanced) {n : Nat}
    (h : ¬ g.KeepsClosers (n + 1)) {r : Reading} (hfits : r.Fits)
    (hroom : r.nesting.depth + (n + 1) = maxNesting) {start : Nat} (hstart : r.soFar.length = start) :
    ∃ k p q, (some k, p) ∈ g.tagged start ∧ (some k, q) ∈ g.tagged start ∧
      level (g.pairs start) p = n + 1 ∧ Encloses p q ∧
      (p.1, q.2) ∈ (g.toMarks.foldl Reading.step r).soFar.pairs 0 := by
  induction g generalizing n r start with
  | done => exact absurd trivial h
  | char c rest ih =>
    have hplain : c ∉ ['\x7b', '\x7d', '(', ')'] := fun hmem =>
      hbalanced.1 (List.mem_cons_of_mem _ (List.mem_cons_of_mem _ hmem))
    have hroom' : (r.step (.char c)).nesting.depth + (n + 1) = maxNesting := by
      rw [Reading.step_plain hplain]
      exact hroom
    have hnext := Reading.length_foldl hfits [.char c]
    rw [hstart] at hnext
    exact ih hbalanced.2 h (Reading.fits_step hfits _) hroom' hnext
  | escaped c rest ih =>
    have hnext := Reading.length_foldl hfits [.escaped c]
    rw [hstart] at hnext
    exact ih hbalanced h (Reading.fits_step hfits (.escaped c)) hroom hnext
  | bracket members rest ih =>
    have hnext := Reading.length_foldl hfits [.bracket members]
    rw [hstart, width_bracket, ← Nat.add_assoc] at hnext
    obtain ⟨k, p, q, hp, hq, hlevel, hpq⟩ :=
      ih hbalanced.2 h (Reading.fits_step hfits (.bracket members)) hroom hnext
    refine ⟨k, p, q, List.mem_cons_of_mem _ hp, List.mem_cons_of_mem _ hq, ?_, hpq⟩
    rw [level_bracket (mem_pairs_of_tagged hp), hlevel]
  | group k body rest ihb ihr =>
    by_cases hbody : (n + 1 = 1 → body.Lacks k) ∧ body.KeepsClosers n
    · -- the group itself is closed where it should be, so it happens behind it
      have hrest : ¬ rest.KeepsClosers (n + 1) := fun hrest => h ⟨hbody, hrest⟩
      have hread := Reading.foldl_flattened (g := group k body done) ⟨hbalanced.1, trivial⟩
        ⟨hbody, trivial⟩ hroom
      have hnext := Reading.length_foldl hfits (group k body done).toMarks
      rw [width_toMarks, hstart, length, length, Nat.add_zero, ← Nat.add_assoc] at hnext
      obtain ⟨k', p, q, hp, hq, hlevel, hpq, hmem⟩ := ihr hbalanced.2 hrest
        (Reading.fits_foldl hfits (group k body done).toMarks) (by rw [hread]; exact hroom) hnext
      refine ⟨k', p, q, List.mem_cons_of_mem _ (List.mem_append_right _ hp),
        List.mem_cons_of_mem _ (List.mem_append_right _ hq), ?_, hpq, ?_⟩
      · rw [level_rest (mem_pairs_of_tagged hp), hlevel]
      · have hmarks : (group k body rest).toMarks =
            (group k body done).toMarks ++ rest.toMarks := by simp [toMarks]
        rw [hmarks, List.foldl_append]
        exact hmem
    · cases n with
      | zero =>
        have hlacks : ¬ body.Lacks k := fun hlacks => hbody ⟨fun _ => hlacks,
          keepsClosers_of_tagged 0 fun k p q _ _ hlevel =>
            absurd hlevel (Nat.succ_ne_zero _)⟩
        obtain ⟨q, hq, hmem⟩ := misclosed_at_limit hbalanced.1 hlacks hfits hroom rest
        rw [hstart] at hq hmem
        have hinside := mem_pairs_inside (mem_pairs_of_tagged hq)
        refine ⟨k, _, q, List.mem_cons_self, List.mem_cons_of_mem _ (List.mem_append_left _ hq),
          level_group k body rest start, ⟨?_, ?_⟩, hmem⟩
        · simp only
          omega
        · simp only
          omega
      | succ n =>
        have hinner : ¬ body.KeepsClosers (n + 1) := fun hinner => hbody ⟨fun hn => absurd hn (by omega), hinner⟩
        have hopener := Reading.step_opener k (r := r) (by omega)
        have hpushed := Reading.fits_step hfits (.char k.opener)
        have hnext : (r.step (.char k.opener)).soFar.length = start + 1 := by
          rw [← hstart]
          exact Reading.length_foldl hfits [.char k.opener]
        obtain ⟨k', p, q, hp, hq, hlevel, hpq, hmem⟩ := ihb hbalanced.1 hinner hpushed
          (by rw [hopener, Nesting.depth_push]; omega) hnext
        refine ⟨k', p, q, List.mem_cons_of_mem _ (List.mem_append_left _ hp),
          List.mem_cons_of_mem _ (List.mem_append_left _ hq), ?_, hpq, ?_⟩
        · rw [level_body (mem_pairs_of_tagged hp), hlevel]
        · rw [toMarks, List.cons_append, List.foldl_cons, List.foldl_append]
          exact Reading.mem_pairs_foldl (Reading.fits_foldl hpushed _) hmem _

/-! ## 6. Deep texts of the grammar -/

/-- The opener of a pair stands in the text of the tree. -/
theorem getElem?_of_tagged {g : Glob} {kind : Option Grouping} {p : Nat × Nat}
    (h : (kind, p) ∈ g.tagged 0) : g.text[p.1]? = some (delimiters kind).1 := by
  have hpaired := paired_of_mem_tagged h [] [] rfl
  rw [List.nil_append, List.append_nil] at hpaired
  rw [← text_toMarks]
  cases hpaired with
  | «class» front back body hmarks =>
    rw [hmarks, List.flatMap_append]
    simp [width, Mark.text, delimiters]
  | group k front inside back hmarks =>
    rw [hmarks, List.flatMap_append]
    simp [width, Mark.text, delimiters]

theorem kind_eq_none_iff {g : Glob} {kind : Option Grouping} {p : Nat × Nat}
    (h : (kind, p) ∈ g.tagged 0) : kind = none ↔ g.text[p.1]? = some '[' := by
  rw [getElem?_of_tagged h]
  rcases kind with - | - | - <;> decide

theorem delimiters_injective {kind kind' : Option Grouping}
    (h : (delimiters kind).1 = (delimiters kind').1) : kind = kind' := by
  rcases kind with - | - | - <;> rcases kind' with - | - | - <;> first | rfl | exact absurd h (by decide)

/-- Of the pairs of a text, those of the classes and those that are within the limit. -/
def withinLimit (cs : List Char) (pairs : List (Nat × Nat)) : List (Nat × Nat) :=
  pairs.filter fun p => cs[p.1]? = some '[' ∨ level pairs p ≤ maxNesting

theorem pairs_flattened_maxNesting (g : Glob) :
    (g.flattened maxNesting).pairs 0 = withinLimit g.text (g.pairs 0) := by
  have hkinds : (g.tagged 0).filter (fun x =>
      x.1 = none ∨ level (g.pairs 0) x.2 ≤ maxNesting) =
      (g.tagged 0).filter ((fun p => decide (g.text[p.1]? = some '[' ∨
        level (g.pairs 0) p ≤ maxNesting)) ∘ Prod.snd) := by
    refine List.filter_congr fun x hx => ?_
    rw [Function.comp_apply, decide_eq_decide, kind_eq_none_iff hx]
  rw [pairs_flattened, hkinds, withinLimit]
  conv => rhs; rw [← map_tagged]
  rw [List.filter_map, map_tagged]

/-- A group at the limit holds another one of its own kind. -/
def Clashes (cs : List Char) (pairs : List (Nat × Nat)) (p q : Nat × Nat) : Prop :=
  level pairs p = maxNesting ∧ Encloses p q ∧ cs[p.1]? = cs[q.1]?

instance (cs : List Char) (pairs : List (Nat × Nat)) (p q : Nat × Nat) :
    Decidable (Clashes cs pairs p q) :=
  inferInstanceAs (Decidable (level pairs p = maxNesting ∧ Encloses p q ∧ cs[p.1]? = cs[q.1]?))

/-- Groups that clash do not keep their closers. -/
theorem breaks_of_clashes {g : Glob} {p q : Nat × Nat} (hp : p ∈ g.pairs 0) (hq : q ∈ g.pairs 0)
    (h : Clashes g.text (g.pairs 0) p q) : ¬ g.KeepsClosers maxNesting := by
  obtain ⟨hlevel, hpq, hopeners⟩ := h
  obtain ⟨kind, hkind⟩ := exists_tagged hp
  obtain ⟨kind', hkind'⟩ := exists_tagged hq
  rw [getElem?_of_tagged hkind, getElem?_of_tagged hkind', Option.some.injEq] at hopeners
  cases delimiters_injective hopeners
  cases kind with
  | none => exact absurd hpq (not_encloses_of_class hkind hq)
  | some k => exact fun hkeeps => not_encloses_of_keepsClosers hkeeps hkind hkind' hlevel hpq

/-- **The pairs of a text of the grammar, however deep it is.** They are those of its classes and of
    its groups within the limit, with the closers they should have, exactly if no group at the limit
    holds another one of its own kind. Otherwise such a group is closed by the closer of one that it
    holds. -/
theorem pairsOf_of_deep {n : Nat} {cs : List Char} {ps : List (Nat × Nat)}
    (h : Generated n cs ps) :
    (pairsOf cs = withinLimit cs ps ↔ ∀ p ∈ ps, ∀ q ∈ ps, ¬ Clashes cs ps p q) ∧
      ∀ p ∈ ps, ∀ q ∈ ps, Clashes cs ps p q →
        ∃ p' ∈ ps, ∃ q' ∈ ps, Clashes cs ps p' q' ∧ (p'.1, q'.2) ∈ pairsOf cs := by
  obtain ⟨g, hg⟩ := exists_isTree h
  have hmarks := hg.marks []
  have hroom : ({} : Reading).nesting.depth + (63 + 1) = maxNesting := rfl
  obtain rfl := hg.text
  obtain rfl := hg.pairs
  have hread : pairsOf g.text = (g.toMarks.foldl Reading.step {}).soFar.pairs 0 := by
    have hnone : marksOf [] = [] := rfl
    rw [List.append_nil, hnone, List.append_nil] at hmarks
    rw [pairsOf, read, hmarks]
    rfl
  have hbroken (hbreaks : ¬ g.KeepsClosers maxNesting) : ∃ p ∈ g.pairs 0, ∃ q ∈ g.pairs 0,
      Clashes g.text (g.pairs 0) p q ∧ (p.1, q.2) ∈ pairsOf g.text := by
    obtain ⟨k, p, q, hp, hq, hlevel, hpq, hmem⟩ :=
      exists_misclosed hg.balanced hbreaks fits_empty hroom rfl
    refine ⟨p, mem_pairs_of_tagged hp, q, mem_pairs_of_tagged hq, ⟨hlevel, hpq, ?_⟩, ?_⟩
    · rw [getElem?_of_tagged hp, getElem?_of_tagged hq]
    · rw [hread]
      exact hmem
  refine ⟨⟨fun heq p hp q hq hclash => ?_, fun hnone => ?_⟩, fun p hp q hq hclash =>
    hbroken (breaks_of_clashes hp hq hclash)⟩
  · obtain ⟨p', hp', q', hq', ⟨-, ⟨-, hcloser⟩, -⟩, hmem⟩ := hbroken (breaks_of_clashes hp hq hclash)
    rw [heq] at hmem
    have hmem := (List.mem_filter.mp hmem).1
    have hinside := mem_pairs_inside hmem
    have hother := mem_pairs_inside hp'
    have hne : p' ≠ (p'.1, q'.2) := fun h =>
      Nat.ne_of_gt hcloser (Prod.ext_iff.mp h).2
    have := apart_or_encloses hp' hmem hne
    unfold Encloses at this
    simp only at this hinside
    omega
  · have hkeeps : g.KeepsClosers maxNesting := keepsClosers_of_tagged 0 fun k p q hp hq hlevel hpq =>
      hnone p (mem_pairs_of_tagged hp) q (mem_pairs_of_tagged hq) ⟨hlevel, hpq, by
        rw [getElem?_of_tagged hp, getElem?_of_tagged hq]⟩
    have hfold := Reading.foldl_flattened hg.balanced hkeeps hroom
    rw [hread, hfold, ← pairs_flattened_maxNesting]
    exact congrArg (Glob.pairs 0) ((reverseOnto_reverseOnto _ done done).trans (append_done _))

/-- A text in so many more groups of a kind, with the places of its delimiters. -/
def enclosed (k : Grouping) : Nat → List Char × List (Nat × Nat) → List Char × List (Nat × Nat)
  | 0, x => x
  | n + 1, x =>
    let y := enclosed k n x
    (k.opener :: (y.1 ++ [k.closer]), (0, y.1.length + 1) :: y.2.map (shift 1))

theorem generated_enclosed (k : Grouping) {n : Nat} {x : List Char × List (Nat × Nat)}
    (h : Generated n x.1 x.2) (m : Nat) :
    Generated (n + m) (enclosed k m x).1 (enclosed k m x).2 := by
  induction m with
  | zero => exact h
  | succ m ih =>
    have hgroup := Generated.group k ih .done
    rw [Nat.max_zero, List.map_nil, List.append_nil] at hgroup
    exact hgroup

/-- A brace group in as many parentheses as may be open: its delimiters are bare, and the
    parentheses keep their closers. -/
theorem pairsOf_of_deep_kinds :
    Generated 65 (enclosed .parens 64 (enclosed .braces 1 ([], []))).1
        (enclosed .parens 64 (enclosed .braces 1 ([], []))).2 ∧
      pairsOf (enclosed .parens 64 (enclosed .braces 1 ([], []))).1 =
        (enclosed .parens 64 ([], [])).2.map fun p => (p.1, p.2 + 2) := by
  have h := generated_enclosed .parens (generated_enclosed .braces (x := ([], [])) .done 1) 64
  refine ⟨h, ((pairsOf_of_deep h).1.mpr ?_).trans ?_⟩
  · decide +kernel
  · decide +kernel

/-- **Groups of one kind nested too deep**: sixty-five braces in each other. The innermost opener is
    a bare character, but its closer closes the brace around it, and so on to the outermost one,
    whose closer is left over. -/
theorem pairsOf_of_deep_braces :
    Generated 65 (enclosed .braces 65 ([], [])).1 (enclosed .braces 65 ([], [])).2 ∧
      pairsOf (enclosed .braces 65 ([], [])).1 ≠
        withinLimit (enclosed .braces 65 ([], [])).1 (enclosed .braces 65 ([], [])).2 ∧
      (63, 66) ∈ withinLimit (enclosed .braces 65 ([], [])).1 (enclosed .braces 65 ([], [])).2 ∧
      (63, 65) ∈ pairsOf (enclosed .braces 65 ([], [])).1 := by
  refine ⟨generated_enclosed .braces (x := ([], [])) .done 65, ?_⟩
  decide +kernel

end Wildcard.Glob
