import Wildcard.Glob.Bracket
import Wildcard.Proofs.Regex.Caseless
import Wildcard.Regex.Matching

/-!
# The set that a class lists

What stands between the brackets of a class is a row of tokens: characters, hyphens and named
sets (`Bracket.tokensFrom`). Read from the left, a hyphen between two characters makes a range of
them, and every other token stands for itself (`Bracket.Lists`). A hyphen directly before a named
set is meant as a character (`Bracket.escapeHyphens`). The regex item of a class accepts exactly
the characters that the class means (`accepts_item`), unless a hyphen stands between a character
and a named set: there it is written bare, and the regex makes a range of the character and the
beginning of the set (`Bracket.joinsName`).
-/

namespace Wildcard.Bracket

open Wildcard.Regex

/-! ## 1. Named sets -/

/-- The characters that a name between `[:` and `:]` stands for, all of them in ASCII. -/
def NamedSet (name : List Char) (c : Char) : Prop :=
  match String.ofList name with
  | "alnum" => c.isAlphanum = true
  | "alpha" => c.isAlpha = true
  | "ascii" => c ≤ '\x7f'
  | "blank" => c = ' ' ∨ c = '\t'
  | "cntrl" => c < ' ' ∨ c = '\x7f'
  | "digit" => c.isDigit = true
  | "graph" => '!' ≤ c ∧ c ≤ '~'
  | "lower" => c.isLower = true
  | "print" => ' ' ≤ c ∧ c ≤ '~'
  | "punct" => '!' ≤ c ∧ c ≤ '~' ∧ c.isAlphanum = false
  | "space" => c ∈ [' ', '\t', '\n', '\r', '\x0b', '\x0c']
  | "upper" => c.isUpper = true
  | "word" => c.isAlphanum = true ∨ c = '_'
  | "xdigit" => c.isDigit = true ∨ ('a' ≤ c ∧ c ≤ 'f') ∨ ('A' ≤ c ∧ c ≤ 'F')
  | _ => False

/-- What a named class is written as accepts the characters it names. -/
theorem namedSet_iff {e : List Char × List Literal} (he : e ∈ namedClasses) (c : Char) :
    (Member.ofLiterals e.2).any (·.accepts .exact c) = true ↔ NamedSet e.1 c := by
  simp only [namedClasses, List.mem_cons, List.not_mem_nil, or_false] at he
  rcases he with rfl | rfl | rfl | rfl | rfl | rfl | rfl | rfl | rfl | rfl | rfl | rfl | rfl | rfl
    <;> simp [span, Member.ofLiterals, Member.accepts, NamedSet, Literal.char, controlLetter?,
      hexDigit?, Char.isAlphanum, Text.isAlpha_eq, Text.isUpper_eq, Text.isLower_eq, Char.isDigit,
      Char.le_def, Char.lt_def, UInt32.le_iff_toNat_le, UInt32.lt_iff_toNat_lt, Char.ext_iff,
      ← UInt32.toNat_inj]
    <;> omega

/-! ## 2. Tokens -/

/-- A token of a class. -/
inductive Token where
  | char (c : Char)
  /-- A hyphen that no backslash stands before. -/
  | hyphen
  | named (name : List Char)
  deriving DecidableEq, Repr

/-- The name of a named class that stands, with `:]` behind it, at the beginning of a text. -/
def name? (cs : List Char) : Option (List Char) :=
  (namedClasses.map (·.1)).find? fun name => (name ++ [':', ']']).isPrefixOf cs

/-- The tokens of what stands between brackets; the number counts the characters still to be
    passed over. -/
def tokensFrom : Nat → List Char → List Token
  | _, [] => []
  | n + 1, _ :: rest => tokensFrom n rest
  | 0, '\\' :: c :: rest => .char c :: tokensFrom 0 rest
  | 0, c :: rest =>
    match if c = '[' ∧ rest.head? = some ':' then name? (rest.drop 1) else none with
    | some name => .named name :: tokensFrom (name.length + 3) rest
    | none => (if c = '-' then .hyphen else .char c) :: tokensFrom 0 rest

/-- The character that a token is, if it is one. -/
def Token.char? : Token → Option Char
  | char c => some c
  | hyphen => some '-'
  | named _ => none

/-- The characters that tokens list, read from the left: a hyphen between two characters makes a
    range of them. -/
def Lists : List Token → Char → Prop
  | .named name :: rest, c => NamedSet name c ∨ Lists rest c
  | x :: .hyphen :: y :: rest, c =>
    (∃ lo ∈ x.char?, ∃ hi ∈ y.char?, lo ≤ c ∧ c ≤ hi) ∨ Lists rest c
  | x :: rest, c => c ∈ x.char? ∨ Lists rest c
  | [], _ => False

/-- The characters that a class stands for: those its tokens list or, behind a negation, those
    that they do not list, but never a separator. -/
def Contains : List Char → Char → Prop
  | '!' :: body, c => ¬ Lists (tokensFrom 0 body) c ∧ c ≠ '/'
  | '^' :: body, c => ¬ Lists (tokensFrom 0 body) c ∧ c ≠ '/'
  | body, c => Lists (tokensFrom 0 body) c

/-- No hyphen stands directly before a named set. -/
def NamesApart : List Token → Prop
  | .hyphen :: .named _ :: _ => False
  | _ :: rest => NamesApart rest
  | [] => True

/-- No hyphen stands directly before a named set in a class. -/
def HasNamesApart : List Char → Prop
  | '!' :: body => NamesApart (tokensFrom 0 body)
  | '^' :: body => NamesApart (tokensFrom 0 body)
  | body => NamesApart (tokensFrom 0 body)

instance decidableNamesApart : (ts : List Token) → Decidable (NamesApart ts)
  | [] => isTrue trivial
  | .hyphen :: .named _ :: _ => isFalse id
  | .hyphen :: [] => isTrue trivial
  | .hyphen :: .hyphen :: rest => decidableNamesApart (.hyphen :: rest)
  | .hyphen :: .char c :: rest => decidableNamesApart (.char c :: rest)
  | .char _ :: rest => decidableNamesApart rest
  | .named _ :: rest => decidableNamesApart rest

instance decidableHasNamesApart (body : List Char) : Decidable (HasNamesApart body) := by
  unfold HasNamesApart
  split <;> infer_instance

/-- Whether some hyphen, read from the left, stands between a character and a named set. -/
def joinsName : List Token → Bool
  | .named _ :: rest => joinsName rest
  | _ :: .hyphen :: .named _ :: _ => true
  | _ :: .hyphen :: _ :: rest => joinsName rest
  | _ :: rest => joinsName rest
  | [] => false

/-- The tokens with a backslash in front of every hyphen that stands directly before a named set:
    such a hyphen is a character like any other. -/
def escapeHyphens : List Token → List Token
  | .hyphen :: .named name :: rest => .char '-' :: .named name :: escapeHyphens rest
  | x :: rest => x :: escapeHyphens rest
  | [] => []

/-- The tokens of a class, behind what negates it. -/
def classTokens (body : List Char) : List Token := tokensFrom 0 (body.drop (negationLength body))

/-- The characters in the union of what a class lists, where a hyphen directly before a named set is
    a character of its own. -/
def Unites (body : List Char) (c : Char) : Prop := Lists (escapeHyphens (classTokens body)) c

/-- The characters that a class means: those in the union of what it lists or, behind a negation,
    those that are neither in it nor a separator. -/
def Means (body : List Char) (c : Char) : Prop :=
  if negationLength body = 0 then Unites body c else ¬ Unites body c ∧ c ≠ '/'

/-! ## 3. Tokens and what they are written as -/

/-- What the characters of a name are written as. -/
def literalsOf (name : List Char) : List Literal :=
  ((namedClasses.find? (·.1 == name)).map (·.2)).getD []

/-- What tokens are written as. -/
def render : Position → List Token → List Literal
  | _, [] => []
  | _, .char c :: rest => .member c :: render .within rest
  | _, .named name :: rest => literalsOf name ++ render .afterName rest
  | p, .hyphen :: rest =>
    (if p = .within ∧ rest ≠ [] then .bare '-' else .member '-') :: render .within rest

/-- The members of a set that tokens list, read from the left: a hyphen between two characters
    makes a range of them. -/
def members : List Token → List Member
  | .named name :: rest => Member.ofLiterals (literalsOf name) ++ members rest
  | x :: .hyphen :: y :: rest =>
    (x.char?.bind fun lo => y.char?.map fun hi => Member.range lo hi).toList ++ members rest
  | x :: rest => (x.char?.map Member.single).toList ++ members rest
  | [] => []

theorem literalsOf_eq : ∀ e ∈ namedClasses, literalsOf e.1 = e.2 := by
  decide

/-- The name of a named class and what the class is written as are found together. -/
theorem named?_eq_map (cs : List Char) :
    named? cs = (name? cs).map fun name => (literalsOf name, name.length) := by
  have hname : name? cs = (namedClasses.find? fun e =>
      (e.1 ++ [':', ']']).isPrefixOf cs).map (·.1) := by
    rw [name?, List.find?_map]
    rfl
  rw [hname, named?, Option.map_map]
  cases h : namedClasses.find? fun e => (e.1 ++ [':', ']']).isPrefixOf cs with
  | none => rw [Option.map_none, Option.map_none]
  | some e =>
    have he := literalsOf_eq e (List.mem_of_find?_eq_some h)
    simp [he]

/-- A text that is not empty has a token. -/
theorem tokensFrom_ne_nil {cs : List Char} (h : cs ≠ []) : tokensFrom 0 cs ≠ [] := by
  generalize hzero : 0 = passed
  fun_cases tokensFrom passed cs with
  | case1 => exact absurd rfl h
  | case2 => cases hzero
  | case3 => exact List.cons_ne_nil _ _
  | case4 => exact List.cons_ne_nil _ _
  | case5 => exact List.cons_ne_nil _ _

theorem tokensFrom_eq_nil {cs : List Char} : tokensFrom 0 cs = [] ↔ cs = [] := by
  refine ⟨fun h => Decidable.byContradiction fun hne => tokensFrom_ne_nil hne h, fun h => ?_⟩
  rw [h, tokensFrom]

/-- **The members of a class are written as its tokens.** -/
theorem itemsFrom_eq_render (n : Nat) (p : Position) (cs : List Char) :
    itemsFrom n p cs = render p (tokensFrom n cs) := by
  fun_induction itemsFrom n p cs with
  | case1 => simp [tokensFrom, render]
  | case2 _ _ _ _ ih => rw [tokensFrom, ih]
  | case3 p c rest ih => rw [tokensFrom, render, ih]
  | case4 p c rest hno literals n hn ih =>
    split at hn
    · rename_i hc
      rw [named?_eq_map] at hn
      obtain ⟨name, hname, heq⟩ := Option.map_eq_some_iff.mp hn
      obtain ⟨rfl, rfl⟩ := Prod.mk.inj heq
      rw [tokensFrom.eq_4 _ _ hno, if_pos hc, hname, ih]
      rfl
    · cases hn
  | case5 p c rest hno hn ih =>
    have hnone : (if c = '[' ∧ rest.head? = some ':' then name? (rest.drop 1) else none) = none := by
      rw [named?_eq_map] at hn
      split
      · rename_i hc
        rw [if_pos hc] at hn
        exact Option.map_eq_none_iff.mp hn
      · rfl
    rw [tokensFrom.eq_4 _ _ hno, hnone, ih]
    by_cases hc : c = '-'
    · simp only [hc, if_true, render, true_and, ne_eq, tokensFrom_eq_nil]
    · simp only [hc, if_false, render, false_and]

/-! ## 4. What a class accepts -/

/-- The characters that spelled characters in a set list, where case counts. -/
def Listed (literals : List Literal) (c : Char) : Prop :=
  (Member.ofLiterals literals).any (·.accepts .exact c) = true

@[simp] theorem listed_nil (c : Char) : Listed [] c ↔ False := by
  simp [Listed, Member.ofLiterals]

/-- A character with no hyphen behind it, or with a hyphen at the end, is a member. -/
theorem ofLiterals_single (x : Literal) {rest : List Literal}
    (h : rest.head? ≠ some (.bare '-') ∨ rest.length = 1) :
    Member.ofLiterals (x :: rest) = .single x.char :: Member.ofLiterals rest := by
  rw [Member.ofLiterals.eq_def]
  split <;> simp_all

theorem listed_single (x : Literal) {rest : List Literal} (h : rest.head? ≠ some (.bare '-'))
    (c : Char) : Listed (x :: rest) c ↔ c = x.char ∨ Listed rest c := by
  simp [Listed, ofLiterals_single x (.inl h), Member.accepts]

/-- Spelled characters are read apart where no hyphen stands on either side. -/
theorem ofLiterals_append {l r : List Literal} (hl : l.getLast? ≠ some (.bare '-'))
    (hr : r.head? ≠ some (.bare '-')) :
    Member.ofLiterals (l ++ r) = Member.ofLiterals l ++ Member.ofLiterals r := by
  fun_induction Member.ofLiterals l with
  | case1 x y rest ih =>
    rw [List.cons_append, List.cons_append, List.cons_append, Member.ofLiterals, ih, List.cons_append]
    intro h
    cases rest with
    | nil => cases h
    | cons z rest => exact hl (by simpa using h)
  | case2 x rest hno ih =>
    rw [List.cons_append, ofLiterals_single, ih, List.cons_append]
    · intro h
      cases rest with
      | nil => cases h
      | cons z rest => exact hl (by simpa using h)
    · match rest with
      | [] => exact .inl (by simpa using hr)
      | [z] => exact .inl (by simpa using hl)
      | z :: y :: rest =>
        refine .inl fun h => hno y rest ?_
        rw [Option.some.inj h]
  | case3 => rfl

/-- A hyphen that may make a range is written behind a character only. -/
theorem head_render {p : Position} {ts : List Token} (h : p ≠ .within ∨ ts.head? ≠ some .hyphen)
    (hnames : ∀ name, .named name ∈ ts → name ∈ namedClasses.map (·.1)) (r : List Literal)
    (hr : r.head? ≠ some (.bare '-')) : (render p ts ++ r).head? ≠ some (.bare '-') := by
  cases ts with
  | nil => exact hr
  | cons x ts =>
    cases x with
    | char c =>
      intro hc
      have hmember : Literal.member c = .bare '-' := Option.some.inj hc
      unfold Literal.member at hmember
      split at hmember
      · cases hmember
      · rename_i hs
        cases hmember
        exact hs rfl
    | hyphen =>
      have hp : p ≠ .within := h.resolve_right fun hne => hne rfl
      rw [render, if_neg fun hc => hp hc.1]
      simp [Literal.member, Literal.isSetSpecial]
    | named name =>
      obtain ⟨e, he, rfl⟩ := List.mem_map.mp (hnames name List.mem_cons_self)
      have hhead : ∀ e ∈ namedClasses, e.2 ≠ [] ∧ e.2.head? ≠ some (.bare '-') := by decide
      obtain ⟨hne, hne'⟩ := hhead e he
      obtain ⟨l, ls, hl⟩ := List.exists_cons_of_ne_nil hne
      rw [render, literalsOf_eq e he, hl]
      rw [hl] at hne'
      exact hne'

/-- A token that is a character is written as one. -/
theorem render_char {x : Token} {a : Char} (hx : x.char? = some a) (p : Position)
    (ts : List Token) : ∃ l : Literal, l.char = a ∧ render p (x :: ts) = l :: render .within ts := by
  cases x with
  | char c =>
    cases hx
    exact ⟨.member a, Literal.char_member a, rfl⟩
  | hyphen =>
    cases hx
    rw [render]
    split
    · exact ⟨_, rfl, rfl⟩
    · exact ⟨_, Literal.char_member '-', rfl⟩
  | named name => cases hx

theorem NamesApart.tail {x : Token} {ts : List Token} (h : NamesApart (x :: ts)) :
    NamesApart ts := by
  rw [NamesApart.eq_def] at h
  split at h
  · exact h.elim
  · rename_i heq
    cases heq
    exact h
  · trivial

/-- All names among some tokens are names of named classes. -/
def Named (ts : List Token) : Prop :=
  ∀ name, .named name ∈ ts → name ∈ namedClasses.map (·.1)

theorem Named.tail {x : Token} {ts : List Token} (h : Named (x :: ts)) : Named ts :=
  fun name hname => h name (List.mem_cons_of_mem x hname)

theorem Token.exists_char? {x : Token} (hx : ∀ name, x ≠ .named name) : ∃ c, x.char? = some c := by
  cases x with
  | char c => exact ⟨c, rfl⟩
  | hyphen => exact ⟨'-', rfl⟩
  | named name => exact (hx name rfl).elim

/-- Each token stays the character it is. -/
theorem escapeHyphens_cons (x : Token) (rest : List Token) :
    ∃ x', escapeHyphens (x :: rest) = x' :: escapeHyphens rest ∧ x'.char? = x.char? := by
  rw [escapeHyphens.eq_def]
  split
  · rename_i heq
    cases heq
    exact ⟨.char '-', rfl, rfl⟩
  · rename_i heq
    cases heq
    exact ⟨x, rfl, rfl⟩
  · rename_i heq
    cases heq

/-- A hyphen that makes a range stays one. -/
theorem escapeHyphens_range (x : Token) {y : Token} (hy : ∀ name, y ≠ .named name)
    (rest : List Token) : ∃ y', escapeHyphens (x :: .hyphen :: y :: rest) =
      x :: .hyphen :: y' :: escapeHyphens rest ∧ y'.char? = y.char? := by
  obtain ⟨y', hescape, hchar⟩ := escapeHyphens_cons y rest
  refine ⟨y', ?_, hchar⟩
  rw [escapeHyphens.eq_2 _ _ (fun _ _ _ h => by cases h),
    escapeHyphens.eq_2 _ _ (fun name _ _ h => hy name (List.cons.inj h).1), hescape]

/-- A token that is in no range stays in none. -/
theorem escapeHyphens_single (x : Token) {rest : List Token}
    (h : ∀ y rest', rest ≠ .hyphen :: y :: rest') :
    ∃ x', escapeHyphens (x :: rest) = x' :: escapeHyphens rest ∧ x'.char? = x.char? ∧
      ∀ y rest', escapeHyphens rest ≠ .hyphen :: y :: rest' := by
  obtain ⟨x', hescape, hchar⟩ := escapeHyphens_cons x rest
  refine ⟨x', hescape, hchar, fun y rest' hrest => ?_⟩
  fun_cases escapeHyphens rest with
  | case1 name rest => exact h _ _ rfl
  | case2 z rest hno =>
    rw [escapeHyphens.eq_2 _ _ hno] at hrest
    obtain ⟨rfl, htail⟩ := List.cons.inj hrest
    cases rest with
    | nil => cases htail
    | cons z rest => exact h z rest rfl
  | case3 => cases hrest

theorem Named.escapeHyphens {ts : List Token} (h : Named ts) : Named (escapeHyphens ts) := by
  fun_induction Bracket.escapeHyphens ts with
  | case1 name rest ih =>
    intro name' hname
    rcases List.mem_cons.mp hname with hhead | hname
    · cases hhead
    rcases List.mem_cons.mp hname with hhead | hname
    · cases hhead
      exact h name (List.mem_cons_of_mem _ List.mem_cons_self)
    · exact ih h.tail.tail name' hname
  | case2 x rest hno ih =>
    intro name hname
    rcases List.mem_cons.mp hname with rfl | hname
    · exact h name List.mem_cons_self
    · exact ih h.tail name hname
  | case3 => exact h

theorem NamesApart.escapeHyphens_eq {ts : List Token} (h : NamesApart ts) :
    escapeHyphens ts = ts := by
  fun_induction escapeHyphens ts with
  | case1 name rest ih => exact h.elim
  | case2 x rest hno ih => rw [ih h.tail]
  | case3 => rfl

theorem NamesApart.joinsName_eq {ts : List Token} (h : NamesApart ts) : joinsName ts = false := by
  fun_induction joinsName ts with
  | case1 name rest ih => exact ih h.tail
  | case2 x name rest hx => exact h.tail.elim
  | case3 x y rest hx hy ih => exact ih h.tail.tail.tail
  | case4 x rest hx hno hno' ih => exact ih h.tail
  | case5 => rfl

/-- **What tokens are written as is read back as the members they list**, whatever is written
    behind, unless a hyphen joins a character to a named set. -/
theorem ofLiterals_render (p : Position) {ts : List Token} (hjoins : joinsName ts = false)
    (hnames : Named ts) {r : List Literal} (hr : r.head? ≠ some (.bare '-')) :
    Member.ofLiterals (render p ts ++ r) =
      members (escapeHyphens ts) ++ Member.ofLiterals r := by
  fun_induction joinsName ts generalizing p with
  | case1 name rest ih =>
    obtain ⟨e, he, rfl⟩ := List.mem_map.mp (hnames name List.mem_cons_self)
    have hlast : ∀ e ∈ namedClasses, e.2.getLast? ≠ some (.bare '-') := by decide
    have hescape : escapeHyphens (.named e.1 :: rest) = .named e.1 :: escapeHyphens rest := rfl
    rw [render, literalsOf_eq e he, List.append_assoc,
      ofLiterals_append (hlast e he) (head_render (.inl (by decide)) hnames.tail r hr),
      ih .afterName hjoins hnames.tail, hescape, members, literalsOf_eq e he, List.append_assoc]
  | case2 => cases hjoins
  | case3 x y rest hx hy ih =>
    obtain ⟨a, ha⟩ := Token.exists_char? hx
    obtain ⟨b, hb⟩ := Token.exists_char? hy
    obtain ⟨lx, hlx, hfirst⟩ := render_char ha p (.hyphen :: y :: rest)
    obtain ⟨ly, hly, hsecond⟩ := render_char hb .within rest
    have hmiddle : render .within (.hyphen :: y :: rest) = .bare '-' :: ly :: render .within rest := by
      rw [render, if_pos ⟨rfl, List.cons_ne_nil _ _⟩, hsecond]
    obtain ⟨y', hescape, hchar⟩ := escapeHyphens_range x hy rest
    rw [hfirst, hmiddle, List.cons_append, List.cons_append, List.cons_append, Member.ofLiterals,
      ih .within hjoins hnames.tail.tail.tail, hlx, hly, hescape, members.eq_2 _ _ _ hx, ha, hchar,
      hb]
    rfl
  | case4 x rest hx _ hno ih =>
    obtain ⟨a, ha⟩ := Token.exists_char? hx
    obtain ⟨lx, hlx, hfirst⟩ := render_char ha p rest
    have hhead : (render .within rest ++ r).head? ≠ some (.bare '-') := by
      by_cases hrest : rest = [.hyphen]
      · rw [hrest]
        simp [render, Literal.member, Literal.isSetSpecial]
      · refine head_render (.inr fun h => ?_) hnames.tail r hr
        obtain ⟨rest', rfl⟩ := List.head?_eq_some_iff.mp h
        cases rest' with
        | nil => exact hrest rfl
        | cons z rest' => exact hno z rest' rfl
    obtain ⟨x', hescape, hchar, hno'⟩ := escapeHyphens_single x hno
    have hx' (name : List Char) (h : x' = .named name) : False := by
      rw [h, ha] at hchar
      cases hchar
    rw [hfirst, List.cons_append, ofLiterals_single lx (.inl hhead),
      ih .within hjoins hnames.tail, hlx, hescape, members.eq_3 _ _ hx' hno', hchar, ha]
    rfl
  | case5 => rfl

/-- The members that tokens list accept what they list. -/
theorem any_members {ts : List Token} (hnames : Named ts) (c : Char) :
    (members ts).any (·.accepts .exact c) = true ↔ Lists ts c := by
  fun_induction Lists ts c with
  | case1 name rest c ih =>
    obtain ⟨e, he, rfl⟩ := List.mem_map.mp (hnames name List.mem_cons_self)
    rw [members, List.any_append, Bool.or_eq_true, literalsOf_eq e he, namedSet_iff he,
      ih hnames.tail]
  | case2 x y rest c hx ih =>
    rw [members.eq_2 _ _ _ hx, List.any_append, Bool.or_eq_true, ih hnames.tail.tail.tail]
    cases x.char? <;> cases y.char? <;> simp [Member.accepts]
  | case3 x rest c hx hno ih =>
    rw [members.eq_3 _ _ hx hno, List.any_append, Bool.or_eq_true, ih hnames.tail]
    cases x.char? with
    | none => simp
    | some a => simp [Member.accepts, @eq_comm _ a c]
  | case4 c => simp [members]

/-- **What tokens are written as lists what they list**, whatever is written behind. -/
theorem listed_render (p : Position) (ts : List Token) (c : Char) (hjoins : joinsName ts = false)
    (hnames : Named ts) {r : List Literal} (hr : r.head? ≠ some (.bare '-')) :
    Listed (render p ts ++ r) c ↔ Lists (escapeHyphens ts) c ∨ Listed r c := by
  rw [Listed, ofLiterals_render p hjoins hnames hr, List.any_append, Bool.or_eq_true,
    any_members hnames.escapeHyphens, Listed]

/-- Every name that is read is the name of a named class. -/
theorem mem_tokensFrom (n : Nat) (cs : List Char) : Named (tokensFrom n cs) := by
  unfold Named
  fun_induction tokensFrom n cs with
  | case1 => simp
  | case2 _ _ _ ih => exact ih
  | case3 c rest ih =>
    intro name h
    rcases List.mem_cons.mp h with h | h
    · cases h
    · exact ih name h
  | case4 c rest _ name' hname ih =>
    intro name h
    rcases List.mem_cons.mp h with h | h
    · split at hname
      · cases h
        exact List.mem_of_find?_eq_some hname
      · cases hname
    · exact ih name h
  | case5 c rest _ _ ih =>
    intro name h
    rcases List.mem_cons.mp h with h | h
    · split at h <;> cases h
    · exact ih name h

/-- Where case counts, a set of one character is no exception. -/
theorem isListed_exact (members : List Member) (c : Char) :
    isListed .exact members c = members.any (·.accepts .exact c) := by
  unfold isListed onlyMember?
  split
  · rename_i x hx
    split at hx
    · split at hx
      · rename_i x' rest hall
        cases hx
        have hrest : rest.any (·.accepts .exact c) = true → (c == x) = true := by
          intro h
          obtain ⟨m, hm, hc⟩ := List.any_eq_true.mp h
          rw [eq_of_beq (List.all_eq_true.mp hall m hm)] at hc
          exact hc
        cases hcx : c == x with
        | true => simp [acceptsChar, Member.accepts, hcx]
        | false =>
          have hno := mt hrest (by rw [hcx]; exact Bool.false_ne_true)
          simp only [acceptsChar, List.any_cons, Member.accepts, hcx, Bool.false_or]
          exact (Bool.eq_false_iff.mpr hno).symm
      · cases hx
    · cases hx
  · rfl

theorem negationLength_eq_zero {body : List Char} (hbang : ∀ rest, body ≠ '!' :: rest)
    (hcaret : ∀ rest, body ≠ '^' :: rest) : negationLength body = 0 := by
  cases body with
  | nil => rfl
  | cons c rest =>
    refine if_neg fun hc => ?_
    rcases Bool.or_eq_true_iff.mp hc with hc | hc
    · exact hbang rest (by rw [eq_of_beq hc])
    · exact hcaret rest (by rw [eq_of_beq hc])

theorem negationLength_le_one (body : List Char) : negationLength body ≤ 1 := by
  cases body with
  | nil => exact Nat.zero_le 1
  | cons c rest =>
    rw [negationLength]
    split <;> decide

/-- What a class is written as. -/
theorem item_eq (body : List Char) : item body =
    if negationLength body = 0 then .set false (render .first (classTokens body))
    else .set true (render .first (classTokens body) ++ [.bare '/']) := by
  unfold item classTokens
  split
  · rename_i h0
    rw [h0, List.drop_zero, itemsFrom_eq_render]
  · rename_i hne
    have h1 : negationLength body = 1 := by
      have := negationLength_le_one body
      omega
    rw [h1, itemsFrom_eq_render]

/-- **A class accepts the characters that it means**, where case counts, unless a hyphen in it joins
    a character to a named set. -/
theorem accepts_item {body : List Char} (h : joinsName (classTokens body) = false) (dotAll : Bool)
    (c : Char) : (item body).accepts .exact dotAll c = true ↔ Means body c := by
  have hlisted {r : List Literal} (hr : r.head? ≠ some (.bare '-')) :
      Listed (render .first (classTokens body) ++ r) c ↔ Unites body c ∨ Listed r c :=
    listed_render .first (classTokens body) c h (mem_tokensFrom 0 _) hr
  rw [item_eq, Means]
  split
  · have hplain := @hlisted [] (by simp)
    rw [List.append_nil, listed_nil, or_false] at hplain
    rw [Single.accepts, isListed_exact, Bool.bne_false]
    exact hplain
  · have hnegated := @hlisted [.bare '/'] (by simp)
    rw [listed_single _ (by simp), listed_nil, or_false] at hnegated
    rw [Single.accepts, isListed_exact, Bool.bne_true, Bool.not_eq_true', Bool.eq_false_iff, ne_eq,
      ne_eq, ← not_or]
    exact not_congr hnegated

/-- What negates a class is no part of its tokens. -/
theorem hasNamesApart_iff (body : List Char) :
    HasNamesApart body ↔ NamesApart (classTokens body) := by
  fun_cases HasNamesApart body with
  | case1 rest => rfl
  | case2 rest => rfl
  | case3 _ hbang hcaret => rw [classTokens, negationLength_eq_zero hbang hcaret, List.drop_zero]

/-- Where names stand apart, a class means what it stands for. -/
theorem means_iff_contains {body : List Char} (h : HasNamesApart body) (c : Char) :
    Means body c ↔ Contains body c := by
  rw [Means, Unites, ((hasNamesApart_iff body).mp h).escapeHyphens_eq, classTokens]
  fun_cases Contains body c with
  | case1 rest => exact Iff.rfl
  | case2 rest => exact Iff.rfl
  | case3 _ _ hbang hcaret =>
    rw [negationLength_eq_zero hbang hcaret, if_pos rfl, List.drop_zero]

/-- A class in which names stand apart accepts the characters that it stands for, where case
    counts. -/
theorem accepts_item_iff {body : List Char} (h : HasNamesApart body) (dotAll : Bool) (c : Char) :
    (item body).accepts .exact dotAll c = true ↔ Contains body c :=
  (accepts_item ((hasNamesApart_iff body).mp h).joinsName_eq dotAll c).trans
    (means_iff_contains h c)

end Wildcard.Bracket
