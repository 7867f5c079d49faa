import Wildcard.Proofs.Flags

/-!
# Runs without a text

Where a regex can read a dot is told by the regex alone. A run without a text goes from spot to
spot: a spot says where a reader of a path stands, at the beginning of a segment or within one, and
whether a guard has been passed there. An item may read any character that it accepts, but behind a
guard no dot (`PassesBy`); lookaheads other than guards are passed over.

* `Path.after_start`: a text takes the reader to `exposed` exactly if one of its segments begins
  with a dot.
* `covers_passes`: whatever a regex spans, some run without a text goes along.
* `realizes_passes`: for a regex with no lookaheads but guards, every such run goes along some
  text.
-/

namespace Wildcard

/-! ## 1. Points of a path -/

namespace Path

/-- Some segment of the text begins with a dot. -/
def HasDotfile (c : List Char) : Prop := ∃ x ∈ c.splitOn '/', x.head? = some '.'

/-- Where a reader of a path stands. -/
inductive Point where
  /-- At the beginning of a segment. -/
  | start
  | inside
  /-- A segment was found to begin with a dot. -/
  | exposed
  deriving DecidableEq, Repr

/-- Reads on by one character. -/
def Point.read : Point → Char → Point
  | start, c => if c = '/' then start else if c = '.' then exposed else inside
  | inside, c => if c = '/' then start else inside
  | exposed, _ => exposed

/-- Reads on by a text. -/
def Point.after (p : Point) (x : List Char) : Point := x.foldl read p

theorem Point.after_append (p : Point) (x y : List Char) : p.after (x ++ y) = (p.after x).after y :=
  List.foldl_append

theorem Point.after_exposed (x : List Char) : Point.exposed.after x = exposed := by
  induction x with
  | nil => rfl
  | cons c x ih => exact ih

/-- From the beginning of a segment the next segments are all that count, and from within a segment
    those but the first. -/
theorem after_eq_exposed (c : List Char) :
    (Point.start.after c = .exposed ↔ ∃ x ∈ c.splitOn '/', x.head? = some '.') ∧
      (Point.inside.after c = .exposed ↔ ∃ x ∈ (c.splitOn '/').tail, x.head? = some '.') := by
  induction c with
  | nil => simp [Point.after]
  | cons d c ih =>
    obtain ⟨hstart, hinside⟩ := ih
    obtain ⟨y, ys, hy⟩ := List.exists_cons_of_ne_nil (List.splitOn_ne_nil '/' c)
    rw [hy] at hstart hinside
    rw [List.splitOn_cons_eq_if_modifyHead]
    by_cases hd : d = '/'
    · subst hd
      have hs : Point.start.after ('/' :: c) = Point.start.after c := rfl
      have hi : Point.inside.after ('/' :: c) = Point.start.after c := rfl
      rw [hs, hi, hstart, if_pos (beq_self_eq_true '/'), hy]
      simp
    · rw [if_neg (by simpa using hd), hy]
      have hi : Point.inside.after (d :: c) = Point.inside.after c := by
        show Point.after (if d = '/' then .start else .inside) c = _
        rw [if_neg hd]
      refine ⟨?_, by rw [hi, hinside]; rfl⟩
      by_cases hdot : d = '.'
      · subst hdot
        have hs : Point.start.after ('.' :: c) = Point.exposed.after c := rfl
        rw [hs, Point.after_exposed]
        simp
      · have hs : Point.start.after (d :: c) = Point.inside.after c := by
          show Point.after (if d = '/' then .start else if d = '.' then .exposed else .inside) c = _
          rw [if_neg hd, if_neg hdot]
        rw [hs, hinside]
        simp [hdot]

theorem after_start (c : List Char) : Point.start.after c = .exposed ↔ HasDotfile c :=
  (after_eq_exposed c).1

end Path

/-! ## 2. Runs from spot to spot -/

namespace Regex

open Wildcard.Path (Point)

/-- A point of a path, and whether a guard has been passed there. -/
structure Spot where
  point : Point
  guarded : Bool

namespace Spot

/-- Behind a guard no dot comes next. -/
def Fits (s : Spot) (u : List Char) : Prop := s.guarded = true → u.head? ≠ some '.'

/-- One character that passes a test is read, no dot if a guard was passed. -/
def Reads (p : Char → Bool) (s s' : Spot) : Prop :=
  ∃ c, p c = true ∧ (s.guarded = true → c ≠ '.') ∧ s' = ⟨s.point.read c, false⟩

/-- The same point, behind a guard. -/
def behindGuard (s : Spot) : Spot := ⟨s.point, true⟩

end Spot

/-- The regex is a dot, as it stands in a guard. -/
def ReadsDot (body : Regex) : Prop := ∃ x, Single.IsDot x ∧ body = .single x .once .done

/-- How a run without a text passes by a regex, in two parts: with `false` by its first alternative,
    with `true` by one of the later ones. -/
def PassesBy (rule : CaseRule) (dotAll : Bool) : Regex → Bool → Spot → Spot → Prop
  | done, later, s, s' => later = false ∧ s = s'
  | single x q rest, later, s, s' =>
    if later then rest.PassesBy rule dotAll true s s'
    else ∃ m, q.Spans (Spot.Reads (x.accepts rule dotAll)) s m ∧ rest.PassesBy rule dotAll false m s'
  | anchor _ rest, later, s, s' => rest.PassesBy rule dotAll later s s'
  | group k body q rest, later, s, s' =>
    if later then rest.PassesBy rule dotAll true s s'
    else match k with
      | .plain => ∃ m, q.Spans (fun a b => ∃ side, body.PassesBy rule dotAll side a b) s m ∧
          rest.PassesBy rule dotAll false m s'
      | .ahead => rest.PassesBy rule dotAll false s s'
      | .notAhead =>
        (body.ReadsDot ∧ rest.PassesBy rule dotAll false s.behindGuard s') ∨
          (¬ body.ReadsDot ∧ rest.PassesBy rule dotAll false s s')
  | bar rest, later, s, s' =>
    if later then ∃ side, rest.PassesBy rule dotAll side s s' else s = s'

/-- The only lookaheads of the regex are guards, and it has no anchors. -/
def OnlyGuards : Regex → Prop
  | done => True
  | single _ _ rest => rest.OnlyGuards
  | anchor _ _ => False
  | group .plain body _ rest => body.OnlyGuards ∧ rest.OnlyGuards
  | group .ahead _ _ _ => False
  | group .notAhead body _ rest => body.ReadsDot ∧ rest.OnlyGuards
  | bar rest => rest.OnlyGuards

/-- Some run through the regex, from the beginning of a path on, finds a segment that begins with a
    dot. -/
def Exposes (rule : CaseRule) (dotAll : Bool) (r : Regex) : Prop :=
  ∃ side guarded, r.PassesBy rule dotAll side ⟨.start, false⟩ ⟨.exposed, guarded⟩

/-! ## 3. What is read between two spots -/

/-- Between two rests of a text stands what takes a reader from one spot to another. -/
structure Links (s : Spot) (u : List Char) (s' : Spot) (v : List Char) : Prop where
  before : s.Fits u
  behind : s'.Fits v
  read : ∃ x, u = x ++ v ∧ s'.point = s.point.after x

theorem Links.refl {s : Spot} {u : List Char} (h : s.Fits u) : Links s u s u :=
  ⟨h, h, [], rfl, rfl⟩

theorem Links.trans {s m s' : Spot} {u w v : List Char} (h : Links s u m w) (h' : Links m w s' v) :
    Links s u s' v := by
  obtain ⟨x, hu, hm⟩ := h.read
  obtain ⟨y, hw, hs'⟩ := h'.read
  refine ⟨h.before, h'.behind, x ++ y, ?_, ?_⟩
  · rw [hu, hw, List.append_assoc]
  · rw [hs', hm, Point.after_append]

theorem links_reads {s : Spot} {c : Char} (h : s.guarded = true → c ≠ '.') (v : List Char) :
    Links s (c :: v) ⟨s.point.read c, false⟩ v where
  before := fun hs e => h hs (Option.some.inj e)
  behind := fun hs => nomatch hs
  read := ⟨[c], rfl, rfl⟩

theorem Links.of_behindGuard {s s' : Spot} {u v : List Char} (h : Links s.behindGuard u s' v) :
    Links s u s' v :=
  ⟨fun _ => h.before rfl, h.behind, h.read⟩

/-- Whatever is spanned, a run goes along. -/
def Covers (P : Spot → Spot → Prop) (Q : List Char → List Char → Prop) : Prop :=
  ∀ s u v, s.Fits u → Q u v → ∃ s', P s s' ∧ Links s u s' v

/-- Every run goes along something that is spanned, in front of any rest that fits. -/
def Realizes (P : Spot → Spot → Prop) (Q : List Char → List Char → Prop) : Prop :=
  ∀ s s' v, s'.Fits v → P s s' → ∃ u, Q u v ∧ Links s u s' v

section Composition

variable {P P' : Spot → Spot → Prop} {Q Q' : List Char → List Char → Prop}

theorem Covers.then (h : Covers P Q) (h' : Covers P' Q') :
    Covers (fun s s' => ∃ m, P s m ∧ P' m s') (fun u v => ∃ w, Q u w ∧ Q' w v) := by
  intro s u v hs ⟨w, hQ, hQ'⟩
  obtain ⟨m, hP, hlinks⟩ := h s u w hs hQ
  obtain ⟨s', hP', hlinks'⟩ := h' m w v hlinks.behind hQ'
  exact ⟨s', ⟨m, hP, hP'⟩, hlinks.trans hlinks'⟩

theorem Covers.repeated (h : Covers P Q) :
    Covers (Relation.ReflTransGen P) (Relation.ReflTransGen Q) := by
  intro s u v hs hQ
  induction hQ with
  | refl => exact ⟨s, .refl, .refl hs⟩
  | tail _ hstep ih =>
    obtain ⟨m, hP, hlinks⟩ := ih
    obtain ⟨s', hP', hlinks'⟩ := h m _ _ hlinks.behind hstep
    exact ⟨s', hP.tail hP', hlinks.trans hlinks'⟩

theorem Covers.quantifier (h : Covers P Q) (q : Quantifier) : Covers (q.Spans P) (q.Spans Q) := by
  cases q with
  | once => exact h
  | optional =>
    intro s u v hs hQ
    rcases hQ with rfl | hQ
    · exact ⟨s, .inl rfl, .refl hs⟩
    · obtain ⟨s', hP, hlinks⟩ := h s u v hs hQ
      exact ⟨s', .inr hP, hlinks⟩
  | plus => exact h.then h.repeated
  | star => exact h.repeated
  | lazyStar => exact h.repeated

theorem covers_reads (p : Char → Bool) : Covers (Spot.Reads p) (Reads p) := by
  intro s u v hs ⟨c, hc, hu⟩
  have hdot : s.guarded = true → c ≠ '.' := by
    intro hguard hdot
    exact hs hguard (by rw [hu, hdot]; rfl)
  rw [hu]
  exact ⟨_, ⟨c, hc, hdot, rfl⟩, links_reads hdot v⟩

theorem Realizes.then (h : Realizes P Q) (h' : Realizes P' Q') :
    Realizes (fun s s' => ∃ m, P s m ∧ P' m s') (fun u v => ∃ w, Q u w ∧ Q' w v) := by
  intro s s' v hv ⟨m, hP, hP'⟩
  obtain ⟨w, hQ', hlinks'⟩ := h' m s' v hv hP'
  obtain ⟨u, hQ, hlinks⟩ := h s m w hlinks'.before hP
  exact ⟨u, ⟨w, hQ, hQ'⟩, hlinks.trans hlinks'⟩

theorem Realizes.repeated (h : Realizes P Q) :
    Realizes (Relation.ReflTransGen P) (Relation.ReflTransGen Q) := by
  intro s s' v hv hP
  induction hP using Relation.ReflTransGen.head_induction_on with
  | refl => exact ⟨v, .refl, .refl hv⟩
  | head hstep _ ih =>
    obtain ⟨w, hQ, hlinks⟩ := ih
    obtain ⟨u, hQ', hlinks'⟩ := h _ _ w hlinks.before hstep
    exact ⟨u, hQ.head hQ', hlinks'.trans hlinks⟩

theorem Realizes.quantifier (h : Realizes P Q) (q : Quantifier) :
    Realizes (q.Spans P) (q.Spans Q) := by
  cases q with
  | once => exact h
  | optional =>
    intro s s' v hv hP
    rcases hP with rfl | hP
    · exact ⟨v, .inl rfl, .refl hv⟩
    · obtain ⟨u, hQ, hlinks⟩ := h s s' v hv hP
      exact ⟨u, .inr hQ, hlinks⟩
  | plus => exact h.then h.repeated
  | star => exact h.repeated
  | lazyStar => exact h.repeated

theorem realizes_reads (p : Char → Bool) : Realizes (Spot.Reads p) (Reads p) := by
  intro s s' v _ ⟨c, hc, hdot, hs'⟩
  rw [hs']
  exact ⟨c :: v, ⟨c, hc, rfl⟩, links_reads hdot v⟩

end Composition

/-! ## 4. Runs and texts -/

variable {t : Subject} {r body : Regex}

theorem accepts_isDot {x : Single} (h : x.IsDot) (rule : CaseRule) (dotAll : Bool) (c : Char) :
    x.accepts rule dotAll c = (c == '.') := by
  rcases h with rfl | rfl
  · exact accepts_quote_dot rule dotAll c
  · exact Member.accepts_single_eq_beq caseless_dot rule c

/-- A guard looks for a dot. -/
theorem spans_readsDot (h : body.ReadsDot) (u : List Char) :
    (∃ side v, body.SpansBy t side u v) ↔ u.head? = some '.' := by
  obtain ⟨x, hx, rfl⟩ := h
  constructor
  · intro ⟨side, v, hspan⟩
    cases side with
    | true => exact absurd hspan.1 (by decide)
    | false =>
      obtain ⟨w, ⟨c, hc, hu⟩, -⟩ := hspan
      rw [accepts_isDot hx, beq_iff_eq] at hc
      rw [hu, hc]
      rfl
  · intro hu
    obtain ⟨v, rfl⟩ := List.head?_eq_some_iff.mp hu
    refine ⟨false, v, v, ⟨'.', ?_, rfl⟩, rfl, rfl⟩
    rw [accepts_isDot hx, beq_self_eq_true]

/-- **Whatever a regex spans, a run without a text goes along.** -/
theorem covers_passesBy (t : Subject) (r : Regex) (side : Bool) :
    Covers (r.PassesBy t.rule t.dotAll side) (r.SpansBy t side) := by
  induction r generalizing side with
  | done =>
    intro s u v hs ⟨hside, huv⟩
    rw [← huv]
    exact ⟨s, ⟨hside, rfl⟩, .refl hs⟩
  | single x q rest ih =>
    cases side with
    | true => exact ih true
    | false => exact ((covers_reads _).quantifier q).then (ih false)
  | anchor a rest ih =>
    cases side with
    | true => exact ih true
    | false =>
      intro s u v hs ⟨_, hspan⟩
      exact ih false s u v hs hspan
  | group k body q rest ihb ihr =>
    cases side with
    | true => exact ihr true
    | false =>
      cases k with
      | plain =>
        have hbody : Covers (fun a b => ∃ side, body.PassesBy t.rule t.dotAll side a b)
            (fun a b => ∃ side, body.SpansBy t side a b) := by
          intro s u v hs ⟨side, hspan⟩
          obtain ⟨s', hpass, hlinks⟩ := ihb side s u v hs hspan
          exact ⟨s', ⟨side, hpass⟩, hlinks⟩
        exact (hbody.quantifier q).then (ihr false)
      | ahead =>
        intro s u v hs ⟨_, hspan⟩
        exact ihr false s u v hs hspan
      | notAhead =>
        intro s u v hs ⟨hnot, hspan⟩
        by_cases hdot : body.ReadsDot
        · have hu : s.behindGuard.Fits u := fun _ hhead => hnot ((spans_readsDot hdot u).mpr hhead)
          obtain ⟨s', hpass, hlinks⟩ := ihr false s.behindGuard u v hu hspan
          exact ⟨s', .inl ⟨hdot, hpass⟩, hlinks.of_behindGuard⟩
        · obtain ⟨s', hpass, hlinks⟩ := ihr false s u v hs hspan
          exact ⟨s', .inr ⟨hdot, hpass⟩, hlinks⟩
  | bar rest ih =>
    cases side with
    | true =>
      intro s u v hs ⟨side, hspan⟩
      obtain ⟨s', hpass, hlinks⟩ := ih side s u v hs hspan
      exact ⟨s', ⟨side, hpass⟩, hlinks⟩
    | false =>
      intro s u v hs huv
      cases huv
      exact ⟨s, rfl, .refl hs⟩

/-- **Every run goes along some text**, if the regex has no lookaheads but guards. -/
theorem realizes_passesBy (t : Subject) {r : Regex} (hr : r.OnlyGuards) (side : Bool) :
    Realizes (r.PassesBy t.rule t.dotAll side) (r.SpansBy t side) := by
  induction r generalizing side with
  | done =>
    intro s s' v hv ⟨hside, hs'⟩
    cases hs'
    exact ⟨v, ⟨hside, rfl⟩, .refl hv⟩
  | single x q rest ih =>
    cases side with
    | true => exact ih hr true
    | false => exact ((realizes_reads _).quantifier q).then (ih hr false)
  | anchor a rest _ => exact absurd hr id
  | group k body q rest ihb ihr =>
    cases k with
    | plain =>
      obtain ⟨hb, hrest⟩ := hr
      cases side with
      | true => exact ihr hrest true
      | false =>
        have hbody : Realizes (fun a b => ∃ side, body.PassesBy t.rule t.dotAll side a b)
            (fun a b => ∃ side, body.SpansBy t side a b) := by
          intro s s' v hv ⟨side, hpass⟩
          obtain ⟨u, hspan, hlinks⟩ := ihb hb side s s' v hv hpass
          exact ⟨u, ⟨side, hspan⟩, hlinks⟩
        exact (hbody.quantifier q).then (ihr hrest false)
    | ahead => exact absurd hr id
    | notAhead =>
      obtain ⟨hdot, hrest⟩ := hr
      cases side with
      | true => exact ihr hrest true
      | false =>
        intro s s' v hv hpass
        rcases hpass with ⟨_, hpass⟩ | ⟨hno, _⟩
        · obtain ⟨u, hspan, hlinks⟩ := ihr hrest false s.behindGuard s' v hv hpass
          refine ⟨u, ⟨?_, hspan⟩, hlinks.of_behindGuard⟩
          rw [spans_readsDot hdot]
          exact hlinks.before rfl
        · exact absurd hdot hno
  | bar rest ih =>
    cases side with
    | true =>
      intro s s' v hv ⟨side, hpass⟩
      obtain ⟨u, hspan, hlinks⟩ := ih hr side s s' v hv hpass
      exact ⟨u, ⟨side, hspan⟩, hlinks⟩
    | false =>
      intro s s' v hv hss'
      cases hss'
      exact ⟨v, rfl, .refl hv⟩

theorem OnlyGuards.append {r s : Regex} (hr : r.OnlyGuards) (hs : s.OnlyGuards) :
    (r ++ s).OnlyGuards := by
  induction r with
  | done => exact hs
  | single x q rest ih => exact ih hr
  | anchor a rest _ => exact absurd hr id
  | group k body q rest _ ih =>
    cases k with
    | plain => exact ⟨hr.1, ih hr.2⟩
    | ahead => exact absurd hr id
    | notAhead => exact ⟨hr.1, ih hr.2⟩
  | bar rest ih => exact ih hr

theorem OnlyGuards.unrooted (h : r.OnlyGuards) : r.Unrooted := by
  induction r with
  | done => trivial
  | single x q rest ih => exact ih h
  | anchor a rest _ => exact absurd h id
  | group k body q rest ihb ihr =>
    cases k with
    | plain => exact ⟨ihb h.1, ihr h.2⟩
    | ahead => exact absurd h id
    | notAhead =>
      obtain ⟨⟨x, _, hbody⟩, hrest⟩ := h
      exact ⟨by rw [hbody]; trivial, ihr hrest⟩
  | bar rest ih => exact ih h

theorem Translation.onlyGuards {S : Single → Prop} (h : Translation S False r) : r.OnlyGuards := by
  induction h with
  | done => trivial
  | single _ _ ih => exact ih
  | group _ _ ihs ih => exact ⟨alternatives_of (fun hr hs => hr.append hs) id ihs, ih⟩
  | notDot _ hdot _ ih => exact ⟨⟨_, hdot, rfl⟩, ih⟩
  | ahead hL => exact hL.elim
  | except hL => exact hL.elim

/-- If a regex spans a text in which a segment begins with a dot, one of its runs finds that. -/
theorem exposes_of_spans {x : List Char} (h : r.Spans t x []) (hx : Path.HasDotfile x) :
    r.Exposes t.rule t.dotAll := by
  obtain ⟨side, hspan⟩ := h
  have hstart : (Spot.mk .start false).Fits x := fun hguard => nomatch hguard
  obtain ⟨s', hpass, hlinks⟩ := covers_passesBy t r side _ x [] hstart hspan
  obtain ⟨y, hy, hpoint⟩ := hlinks.read
  rw [List.append_nil] at hy
  rw [← hy, (Path.after_start x).mpr hx] at hpoint
  obtain ⟨point, guarded⟩ := s'
  cases hpoint
  exact ⟨side, guarded, hpass⟩

/-- Whatever a run finds, some text that the regex spans shows. -/
theorem exists_spans_of_exposes (hr : r.OnlyGuards) (h : r.Exposes t.rule t.dotAll) :
    ∃ x, r.Spans t x [] ∧ Path.HasDotfile x := by
  obtain ⟨side, guarded, hpass⟩ := h
  have hend : (Spot.mk .exposed guarded).Fits [] := fun _ hhead => nomatch hhead
  obtain ⟨x, hspan, hlinks⟩ := realizes_passesBy t hr side _ _ [] hend hpass
  obtain ⟨y, hy, hpoint⟩ := hlinks.read
  rw [List.append_nil] at hy
  rw [← hy] at hpoint
  exact ⟨x, ⟨side, hspan⟩, (Path.after_start x).mp hpoint.symm⟩

end Regex

end Wildcard
