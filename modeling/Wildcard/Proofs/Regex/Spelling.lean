import Wildcard.Regex.Compiled

/-!
# Regexes that are read back from their text

A regex is well spelled (`Regex.IsSpelled`) if every character in it is written in a way that the
reader takes for that character: outside a set nothing that is an operator stands bare, within a
set nothing that ends it does, and a set lists something. Then its text is read back as the regex
itself, verbosely or not, unless a set holds a reversed range (`read_text`). The spellings that are
chosen for given characters are of this kind (`stands_quote`, `standsInSet_member`).

* `lex_text`: the lexemes of a text are those of the regex, or the first reversed range is named.
* `compile_text`: compiling the text of a regex gives the regex.
-/

namespace Wildcard.Regex

/-! ## 1. Spellings the reader takes for characters -/

/-- The characters that mean something when they stand bare outside a set. -/
def operators : List Char :=
  ['\\', '[', '(', ')', '{', '|', '*', '+', '?', '.', '^', '$', '#']

namespace Literal

/-- Outside a set the spelling is read as a character. -/
def Stands : Literal → Prop
  | bare c => c ∉ operators ∧ isVerboseBlank c = false
  | escaped c => isEscapable c = true
  | hex h l => (hexDigit? h).isSome = true ∧ (hexDigit? l).isSome = true

/-- Within a set the spelling is read as a character. -/
def StandsInSet : Literal → Prop
  | bare c => c ≠ '\\' ∧ c ≠ ']'
  | escaped c => isEscapable c = true
  | hex h l => (hexDigit? h).isSome = true ∧ (hexDigit? l).isSome = true

theorem isEscapable_of_isSpecial {c : Char} (h : isSpecial c = true) : isEscapable c = true := by
  simp only [isSpecial, decide_eq_true_eq, List.mem_cons, List.not_mem_nil, or_false] at h
  rcases h with h | h | h | h | h | h | h | h | h | h | h | h | h | h | h | h | h | h | h | h | h |
    h | h | h <;> subst h <;> rfl

theorem isEscapable_of_isSetSpecial {c : Char} (h : isSetSpecial c = true) :
    isEscapable c = true := by
  simp only [isSetSpecial, decide_eq_true_eq, List.mem_cons, List.not_mem_nil, or_false] at h
  rcases h with h | h | h | h | h | h | h | h <;> subst h <;> rfl

theorem stands_quote (c : Char) : (quote c).Stands := by
  unfold quote
  split
  · rename_i h
    exact isEscapable_of_isSpecial h
  · rename_i h
    simp only [isSpecial, decide_eq_true_eq, List.mem_cons, List.not_mem_nil, or_false, not_or] at h
    simp [Stands, operators, isVerboseBlank, h]

theorem standsInSet_member (c : Char) : (member c).StandsInSet := by
  unfold member
  split
  · rename_i h
    exact isEscapable_of_isSetSpecial h
  · rename_i h
    simp only [isSetSpecial, decide_eq_true_eq, List.mem_cons, List.not_mem_nil, or_false,
      not_or] at h
    exact ⟨h.1, h.2.1⟩

theorem member_ne_circumflex (c : Char) : member c ≠ bare '^' := by
  intro h
  by_cases hc : c = '^'
  · subst hc
    cases h
  · have := congrArg char h
    rw [char_member] at this
    exact hc this

end Literal

/-- Every single-character item of the regex has a property. -/
def Each (P : Single → Prop) : Regex → Prop
  | done => True
  | single s _ rest => P s ∧ rest.Each P
  | anchor _ rest => rest.Each P
  | group _ body _ rest => body.Each P ∧ rest.Each P
  | bar rest => rest.Each P

theorem each_append {P : Single → Prop} (r s : Regex) : (r ++ s).Each P ↔ r.Each P ∧ s.Each P := by
  induction r with
  | done => exact (and_iff_right trivial).symm
  | single c q rest ih => exact (and_congr_right fun _ => ih).trans and_assoc.symm
  | anchor a rest ih => exact ih
  | group k b q rest _ ih => exact (and_congr_right fun _ => ih).trans and_assoc.symm
  | bar rest ih => exact ih

theorem each_of_forall {P : Single → Prop} (h : ∀ s, P s) (r : Regex) : r.Each P := by
  induction r with
  | done => trivial
  | single s q rest ih => exact ⟨h s, ih⟩
  | anchor a rest ih => exact ih
  | group k body q rest ihb ihr => exact ⟨ihb, ihr⟩
  | bar rest ih => exact ih

theorem Each.imp {P Q : Single → Prop} (hPQ : ∀ s, P s → Q s) {r : Regex} (h : r.Each P) :
    r.Each Q := by
  induction r with
  | done => trivial
  | single s q rest ih => exact ⟨hPQ s h.1, ih h.2⟩
  | anchor a rest ih => exact ih h
  | group k body q rest ihb ihr => exact ⟨ihb h.1, ihr h.2⟩
  | bar rest ih => exact ih h

/-- The item is read as itself. A choice is not: it is written like a character. -/
def Single.IsSpelled : Single → Prop
  | literal l => l.Stands
  | choice _ => False
  | set negated items =>
    items ≠ [] ∧ (∀ l ∈ items, l.StandsInSet) ∧ (negated = false → items.head? ≠ some (.bare '^'))
  | dot => True

/-- Every item of the regex is read as itself. -/
def IsSpelled : Regex → Prop
  | done => True
  | single s _ rest => s.IsSpelled ∧ rest.IsSpelled
  | anchor _ rest => rest.IsSpelled
  | group _ body _ rest => body.IsSpelled ∧ rest.IsSpelled
  | bar rest => rest.IsSpelled

theorem isSpelled_iff_each (r : Regex) : r.IsSpelled ↔ r.Each Single.IsSpelled := by
  induction r with
  | done => exact Iff.rfl
  | single s q rest ih => exact and_congr_right fun _ => ih
  | anchor a rest ih => exact ih
  | group k body q rest ihb ihr => exact and_congr ihb ihr
  | bar rest ih => exact ih

theorem IsSpelled.append {r s : Regex} (hr : r.IsSpelled) (hs : s.IsSpelled) :
    (r ++ s).IsSpelled := by
  rw [isSpelled_iff_each] at hr hs ⊢
  exact (each_append r s).mpr ⟨hr, hs⟩

/-! ## 2. The first reversed range -/

/-- The first reversed range of an item whose text begins at `offset`. -/
def Single.reversed? (offset : Nat) : Single → Option ReadError
  | set negated items => reversedRange? (offset + if negated then 2 else 1) items
  | _ => none

/-- The first reversed range of a regex whose text begins at `offset`. -/
def reversed? (offset : Nat) : Regex → Option ReadError
  | done => none
  | single s q rest =>
    (s.reversed? offset).or (rest.reversed? (offset + s.text.length + q.text.length))
  | anchor a rest => rest.reversed? (offset + a.text.length)
  | group k body q rest =>
    (body.reversed? (offset + k.text.length)).or
      (rest.reversed? (offset + k.text.length + body.text.length + 1 + q.text.length))
  | bar rest => rest.reversed? (offset + 1)

/-- No range of the item is reversed. -/
def Single.InOrder : Single → Prop
  | set _ items => reversedRange? 0 items = none
  | _ => True

/-- No range of the regex is reversed. -/
def InOrder : Regex → Prop
  | done => True
  | single s _ rest => s.InOrder ∧ rest.InOrder
  | anchor _ rest => rest.InOrder
  | group _ body _ rest => body.InOrder ∧ rest.InOrder
  | bar rest => rest.InOrder

theorem inOrder_iff_each (r : Regex) : r.InOrder ↔ r.Each Single.InOrder := by
  induction r with
  | done => exact Iff.rfl
  | single s q rest ih => exact and_congr_right fun _ => ih
  | anchor a rest ih => exact ih
  | group k body q rest ihb ihr => exact and_congr ihb ihr
  | bar rest ih => exact ih

theorem inOrder_append (r s : Regex) : (r ++ s).InOrder ↔ r.InOrder ∧ s.InOrder := by
  simp only [inOrder_iff_each, each_append]

/-- Where a set stands says nothing about its ranges. -/
theorem reversedRange?_eq_none (offset : Nat) (items : List Literal) :
    reversedRange? offset items = none ↔ reversedRange? 0 items = none := by
  have moved (a b : Nat) (items : List Literal) (h : reversedRange? a items = none) :
      reversedRange? b items = none := by
    fun_induction reversedRange? a items generalizing b with
    | case1 => cases h
    | case2 a x y rest stop hle ih =>
      rw [reversedRange?, if_neg hle]
      exact ih _ h
    | case3 a x rest hno ih =>
      rw [reversedRange?.eq_2 _ _ _ hno]
      exact ih _ h
    | case4 => rfl
  exact ⟨moved _ _ _, moved _ _ _⟩

theorem reversed?_eq_none (offset : Nat) (r : Regex) : r.reversed? offset = none ↔ r.InOrder := by
  have hsingle (offset : Nat) (s : Single) : s.reversed? offset = none ↔ s.InOrder := by
    cases s with
    | set negated items => exact reversedRange?_eq_none _ items
    | literal l => exact iff_of_true rfl trivial
    | choice l => exact iff_of_true rfl trivial
    | dot => exact iff_of_true rfl trivial
  induction r generalizing offset with
  | done => exact iff_of_true rfl trivial
  | single s q rest ih =>
    rw [reversed?, Option.or_eq_none_iff]
    exact and_congr (hsingle offset s) (ih _)
  | anchor a rest ih => exact ih _
  | group k body q rest ihb ihr =>
    rw [reversed?, Option.or_eq_none_iff]
    exact and_congr (ihb _) (ihr _)
  | bar rest ih => exact ih _

/-! ## 3. Steps of the reader -/

variable {v : Bool} {pos : Nat} {read : List Lexeme} {rest : List Char}

theorem lex_escaped {c : Char} (hc : isEscapable c = true) :
    lex v .outside pos read ('\\' :: c :: rest) =
      lex v .outside (pos + 2) (.single (.literal (.escaped c)) :: read) rest := by
  have hx : c ≠ 'x' := by
    intro h
    subst h
    exact absurd hc (by decide)
  have hA : c ≠ 'A' := by
    intro h
    subst h
    exact absurd hc (by decide)
  have hZ : c ≠ 'Z' := by
    intro h
    subst h
    exact absurd hc (by decide)
  rw [lex.eq_def]
  split <;> grind

theorem lex_hex {h l : Char} (hh : (hexDigit? h).isSome = true) (hl : (hexDigit? l).isSome = true) :
    lex v .outside pos read ('\\' :: 'x' :: h :: l :: rest) =
      lex v .outside (pos + 4) (.single (.literal (.hex h l)) :: read) rest := by
  rw [lex.eq_def]
  simp [hh, hl]

theorem lex_bare {c : Char} (hc : c ∉ operators) (hb : isVerboseBlank c = false) :
    lex v .outside pos read (c :: rest) =
      lex v .outside (pos + 1) (.single (.literal (.bare c)) :: read) rest := by
  simp only [operators, List.mem_cons, List.not_mem_nil, or_false, not_or] at hc
  rw [lex.eq_def]
  split <;> grind

theorem lex_star (h : rest.head? ≠ some '?') :
    lex v .outside pos read ('*' :: rest) =
      lex v .outside (pos + 1) (.quantifier .star :: read) rest := by
  have hb : isVerboseBlank '*' = false := rfl
  rw [lex.eq_def]
  split <;> grind

theorem lex_set (h : rest.head? ≠ some '^') :
    lex v .outside pos read ('[' :: rest) = lex v (.inSet false (pos + 1) []) (pos + 1) read rest := by
  rw [lex.eq_def]
  split <;> grind

theorem lex_inSet {l : Literal} (hl : l.StandsInSet) {negated : Bool} {offset : Nat}
    {soFar : List Literal} :
    lex v (.inSet negated offset soFar) pos read (l.text ++ rest) =
      lex v (.inSet negated offset (l :: soFar)) (pos + l.text.length) read rest := by
  cases l with
  | bare c =>
    obtain ⟨h1, h2⟩ := hl
    change lex v _ pos read (c :: rest) = _
    rw [lex.eq_def]
    split <;> grind [Literal.text]
  | escaped c =>
    have hc : isEscapable c = true := hl
    have hx : c ≠ 'x' := by
      intro h
      subst h
      exact absurd hc (by decide)
    change lex v _ pos read ('\\' :: c :: rest) = _
    rw [lex.eq_def]
    split <;> grind [Literal.text]
  | hex h l =>
    change lex v _ pos read ('\\' :: 'x' :: h :: l :: rest) = _
    rw [lex.eq_def]
    simp [hl.1, hl.2, Literal.text]

/-- The rest of a set is read to its closing bracket, where its ranges are looked at. -/
theorem lex_setItems {items : List Literal} (hitems : ∀ l ∈ items, l.StandsInSet) {negated : Bool}
    {offset : Nat} {soFar : List Literal} (hne : soFar.reverse ++ items ≠ []) :
    lex v (.inSet negated offset soFar) pos read (items.flatMap Literal.text ++ ']' :: rest) =
      match reversedRange? offset (soFar.reverse ++ items) with
      | some e => .error e
      | none => lex v .outside (pos + (items.flatMap Literal.text).length + 1)
          (.single (.set negated (soFar.reverse ++ items)) :: read) rest := by
  induction items generalizing soFar pos with
  | nil =>
    have hs : soFar ≠ [] := by simpa using hne
    rw [List.flatMap_nil, List.nil_append, lex.eq_def, List.append_nil]
    split <;> grind
  | cons l items ih =>
    obtain ⟨hl, hrest⟩ := List.forall_mem_cons.mp hitems
    rw [List.flatMap_cons, List.append_assoc, lex_inSet hl, ih hrest (by simp)]
    rw [List.reverse_cons, List.append_assoc, List.singleton_append, List.length_append]
    rw [show pos + l.text.length + (items.flatMap Literal.text).length + 1 =
      pos + (l.text.length + (items.flatMap Literal.text).length) + 1 by omega]

theorem head_flatMap_text {items : List Literal} (hne : items ≠ []) (tail : List Char)
    (h : items.head? ≠ some (.bare '^')) :
    (items.flatMap Literal.text ++ tail).head? ≠ some '^' := by
  cases items with
  | nil => exact absurd rfl hne
  | cons l items =>
    cases l with
    | bare c =>
      intro hc
      exact h (congrArg (fun o => o.map Literal.bare) hc)
    | escaped c => simp [Literal.text]
    | hex a b => simp [Literal.text]

/-! ## 4. Reading a text -/

/-- Goes on reading unless there is a reversed range to name. -/
def orError {α : Type} (e : Option ReadError) (next : Except ReadError α) : Except ReadError α :=
  match e with
  | some e => .error e
  | none => next

theorem orError_or {α : Type} (e f : Option ReadError) (next : Except ReadError α) :
    orError (e.or f) next = orError e (orError f next) := by
  cases e <;> rfl

/-- A quantifier is read as itself unless a question mark follows. -/
theorem lex_quantifier (q : Quantifier) (h : rest.head? ≠ some '?') :
    lex v .outside pos read (q.text ++ rest) =
      lex v .outside (pos + q.text.length) (q.lexemes.reverse ++ read) rest := by
  cases q with
  | once => rfl
  | optional => cases v <;> rfl
  | star => exact lex_star h
  | plus => cases v <;> rfl
  | lazyStar => rfl

/-- An item is read as itself. -/
theorem lex_single {s : Single} (hs : s.IsSpelled) :
    lex v .outside pos read (s.text ++ rest) =
      orError (s.reversed? pos) (lex v .outside (pos + s.text.length) (.single s :: read) rest) := by
  cases s with
  | literal l =>
    cases l with
    | bare c => exact lex_bare hs.1 hs.2
    | escaped c => exact lex_escaped hs
    | hex h l => exact lex_hex hs.1 hs.2
  | choice l => exact absurd hs id
  | dot => cases v <;> rfl
  | set negated items =>
    obtain ⟨hne, hitems, hhead⟩ := hs
    cases negated with
    | true =>
      have hopen : lex v .outside pos read ((Single.set true items).text ++ rest) =
          lex v (.inSet true (pos + 2) []) (pos + 2) read
            (items.flatMap Literal.text ++ ']' :: rest) := by
        simp only [Single.text, List.cons_append, List.append_assoc, List.nil_append]
        rfl
      rw [hopen, lex_setItems hitems (by simpa using hne)]
      simp only [Single.reversed?, Single.text, orError, List.reverse_nil, List.nil_append,
        List.length_cons, List.length_append, List.length_nil, if_true]
      rw [show pos + 2 + (items.flatMap Literal.text).length + 1 =
        pos + ((items.flatMap Literal.text).length + (0 + 1) + 1 + 1) by omega]
    | false =>
      have hopen : lex v .outside pos read ((Single.set false items).text ++ rest) =
          lex v (.inSet false (pos + 1) []) (pos + 1) read
            (items.flatMap Literal.text ++ ']' :: rest) := by
        simp only [Single.text, List.cons_append, List.append_assoc, List.nil_append]
        exact lex_set (head_flatMap_text hne _ (hhead rfl))
      rw [hopen, lex_setItems hitems (by simpa using hne)]
      simp only [Single.reversed?, Single.text, orError, List.reverse_nil, List.nil_append,
        List.length_cons, List.length_append, List.length_nil, Bool.false_eq_true, if_false]
      rw [show pos + 1 + (items.flatMap Literal.text).length + 1 =
        pos + ((items.flatMap Literal.text).length + (0 + 1) + 1) by omega]

/-- No text of a well-spelled regex begins with a question mark. -/
theorem head_text_append {r : Regex} (hr : r.IsSpelled) (h : rest.head? ≠ some '?') :
    (r.text ++ rest).head? ≠ some '?' := by
  cases r with
  | done => exact h
  | single s q r =>
    cases s with
    | literal l =>
      cases l with
      | bare c =>
        intro hc
        have hc' : c = '?' := Option.some.inj hc
        subst hc'
        exact absurd hr.1.1 (by decide)
      | escaped c => simp [Regex.text, Single.text, Literal.text]
      | hex a b => simp [Regex.text, Single.text, Literal.text]
    | choice l => exact absurd hr.1 id
    | set negated items => cases negated <;> simp [Regex.text, Single.text]
    | dot => simp [Regex.text, Single.text]
  | anchor a r => cases a <;> simp [Regex.text, Anchor.text]
  | group k body q r => cases k <;> simp [Regex.text, GroupKind.text]
  | bar r => simp [Regex.text]

/-- **A well-spelled regex is read lexeme by lexeme**, unless one of its ranges is reversed. -/
theorem lex_text {r : Regex} (hr : r.IsSpelled) (h : rest.head? ≠ some '?') :
    lex v .outside pos read (r.text ++ rest) =
      orError (r.reversed? pos)
        (lex v .outside (pos + r.text.length) (r.lexemes.reverse ++ read) rest) := by
  induction r generalizing pos read rest with
  | done => rfl
  | single s q r ih =>
    obtain ⟨hs, hr⟩ := hr
    rw [Regex.text, List.append_assoc, List.append_assoc, lex_single hs,
      lex_quantifier q (head_text_append hr h), ih hr h, reversed?, orError_or]
    simp only [lexemes, List.length_append, List.reverse_append, List.reverse_cons,
      List.append_assoc, Nat.add_assoc, List.cons_append, List.nil_append]
  | anchor a r ih =>
    have hstep : lex v .outside pos read ((anchor a r).text ++ rest) =
        lex v .outside (pos + a.text.length) (.anchor a :: read) (r.text ++ rest) := by
      cases a <;> cases v <;> rfl
    rw [hstep, ih hr h, reversed?]
    simp only [Regex.text, lexemes, List.length_append, List.reverse_cons, List.append_assoc,
      List.singleton_append, Nat.add_assoc]
  | group k body q r ihb ihr =>
    obtain ⟨hb, hr⟩ := hr
    have hopen : lex v .outside pos read ((group k body q r).text ++ rest) =
        lex v .outside (pos + k.text.length) (.opener k :: read)
          (body.text ++ (')' :: (q.text ++ (r.text ++ rest)))) := by
      simp only [Regex.text, List.append_assoc, List.cons_append]
      cases k <;> rfl
    have hclose (pos : Nat) (read : List Lexeme) (rest : List Char) :
        lex v .outside pos read (')' :: rest) = lex v .outside (pos + 1) (.closer :: read) rest := by
      cases v <;> rfl
    rw [hopen, ihb hb (by simp), hclose, lex_quantifier q (head_text_append hr h), ihr hr h,
      reversed?, orError_or]
    simp only [Regex.text, lexemes, List.length_append, List.length_cons, List.reverse_append,
      List.reverse_cons, List.append_assoc, List.cons_append, List.nil_append, Nat.add_assoc,
      Nat.add_comm 1]
  | bar r ih =>
    have hstep : lex v .outside pos read ((bar r).text ++ rest) =
        lex v .outside (pos + 1) (.bar :: read) (r.text ++ rest) := by
      cases v <;> rfl
    rw [hstep, ih hr h, reversed?]
    simp only [Regex.text, lexemes, List.length_cons, List.reverse_cons, List.append_assoc,
      List.singleton_append, Nat.add_assoc, Nat.add_comm 1]

/-- **A well-spelled regex is read back from its text**, unless one of its ranges is reversed. -/
theorem read_text {r : Regex} (hr : r.IsSpelled) :
    Regex.read v r.text = orError (r.reversed? 0) (.ok r) := by
  have h : lex v .outside 0 [] (r.text ++ []) =
      orError (r.reversed? 0) (lex v .outside (0 + r.text.length) (r.lexemes.reverse ++ []) []) :=
    lex_text hr (by simp)
  rw [List.append_nil, List.append_nil] at h
  rw [Regex.read, h]
  cases r.reversed? 0 with
  | some e => rfl
  | none =>
    have hend : lex v .outside (0 + r.text.length) r.lexemes.reverse [] = .ok r.lexemes.reverse :=
      rfl
    simp only [orError, hend, assemble_lexemes]

/-- What compiling the text of a well-spelled regex gives. -/
theorem compile_text {r : Regex} (hr : r.IsSpelled) {flags : Flags} {c : CompiledRegex}
    (h : CompiledRegex.compile r.text flags = .ok c) :
    c = ⟨r.text, flags, if flags.ignoreCase then r.markChoices else r⟩ ∧
      r.reversed? 0 = none ∧ (flags.ascii && flags.unicode) = false := by
  unfold CompiledRegex.compile at h
  rw [read_text hr] at h
  cases hrev : r.reversed? 0 with
  | some e =>
    rw [hrev] at h
    cases h
  | none =>
    rw [hrev] at h
    cases hau : flags.ascii && flags.unicode with
    | true =>
      simp only [orError, hau, if_true] at h
      cases h
    | false =>
      simp only [orError, hau, Bool.false_eq_true, if_false] at h
      cases h
      exact ⟨rfl, rfl, rfl⟩

/-- A well-spelled regex without reversed ranges is compiled, if its flags agree. -/
theorem exists_compile {r : Regex} (hr : r.IsSpelled) (hranges : r.InOrder) {flags : Flags}
    (hflags : (flags.ascii && flags.unicode) = false) :
    ∃ c, CompiledRegex.compile r.text flags = .ok c := by
  unfold CompiledRegex.compile
  rw [read_text hr, (reversed?_eq_none 0 r).mpr hranges]
  exact ⟨_, if_neg (by rw [hflags]; exact Bool.false_ne_true)⟩

end Wildcard.Regex
