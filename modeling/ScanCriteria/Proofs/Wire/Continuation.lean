import ScanCriteria.Proofs.Wire.OpenTuples

/-!
# Parses that go on from earlier progress

A value may be parsed from the beginning, or within tuples that are open and after others that have
been left. All that a parse sees of earlier progress is how many tuples are open and how many there
have been, and this matters for two limits only. Unless one of these is exceeded the parse does what
it does from the beginning, further down and further on.
-/
namespace ScanCriteria.Wire
open Json

/-- The entry as it is when `d` more tuples are open. -/
def ParsedNode.deepened (d : Nat) (n : ParsedNode) : ParsedNode := { n with depth := d + n.depth }

namespace Progress

/-- What comes of `p` when a parse goes on from it that comes to `q` from the beginning. -/
def continuedBy (p q : Progress) : Progress :=
  ⟨p.depth + q.depth, p.nodeCount + q.nodeCount, p.nodes ++ q.nodes.map (·.deepened p.depth)⟩

theorem continuedBy_start (p : Progress) : p.continuedBy .start = p := by
  simp [continuedBy, start]

theorem continuedBy_enter (p q : Progress) (tag : String) :
    (p.continuedBy q).enter.add tag = p.continuedBy (q.enter.add tag) := by
  simp [continuedBy, enter, add, ParsedNode.deepened, Nat.add_assoc]

theorem continuedBy_exit (p : Progress) {q : Progress} (h : 0 < q.depth) (i : Nat) (k : Kind) :
    (p.continuedBy q).exit (p.nodes.size + i) k = p.continuedBy (q.exit i k) := by
  have hdepth : p.depth + q.depth - 1 = p.depth + (q.depth - 1) := Nat.add_sub_assoc h _
  have hnodes : (p.nodes ++ q.nodes.map (·.deepened p.depth)).modify (p.nodes.size + i)
        (fun n => { n with resolved := some k }) =
      p.nodes ++ (q.nodes.modify i fun n => { n with resolved := some k }).map
        (·.deepened p.depth) := by
    apply Array.ext_getElem?
    intro j
    grind [ParsedNode.deepened]
  simp only [exit, continuedBy, hdepth, hnodes]

/-- The depth of the deepest tuple that has been entered. -/
def deepest (p : Progress) : Nat := (p.nodes.toList.map (·.depth)).foldl max 0

theorem deepest_start : start.deepest = 0 := rfl

theorem deepest_enter (p : Progress) (tag : String) :
    (p.enter.add tag).deepest = max p.deepest (p.depth + 1) := by
  simp [deepest]

theorem deepest_exit (p : Progress) (i : Nat) (k : Kind) : (p.exit i k).deepest = p.deepest := by
  have hdepths : (p.exit i k).nodes.toList.map (·.depth) = p.nodes.toList.map (·.depth) := by
    apply List.ext_getElem?
    intro j
    grind [exit]
  rw [deepest, hdepths, deepest]

/-- The tuples of `q` are not too deep below those that are open in `p`, nor too many with those
that there have been. -/
structure RoomFor (p q : Progress) : Prop where
  depth : p.depth + q.deepest ≤ Limits.depth
  nodeCount : p.nodeCount + q.nodeCount ≤ Limits.nodes

variable {p q : Progress}

theorem roomFor_start (hdepth : p.depth ≤ Limits.depth) (hcount : p.nodeCount ≤ Limits.nodes) :
    p.RoomFor .start where
  depth := by rwa [deepest_start]
  nodeCount := hcount

theorem roomFor_enter {tag : String} : p.RoomFor (q.enter.add tag) ↔
    p.RoomFor q ∧ p.depth + (q.depth + 1) ≤ Limits.depth ∧
      p.nodeCount + (q.nodeCount + 1) ≤ Limits.nodes := by
  constructor
  · rintro ⟨hdepth, hcount⟩
    rw [deepest_enter] at hdepth
    rw [add_nodeCount, enter_nodeCount] at hcount
    exact ⟨⟨by omega, by omega⟩, by omega, hcount⟩
  · rintro ⟨⟨hdeepest, -⟩, hdepth, hcount⟩
    exact ⟨by rw [deepest_enter]; omega, hcount⟩

theorem roomFor_exit {i : Nat} {k : Kind} : p.RoomFor (q.exit i k) ↔ p.RoomFor q := by
  constructor
  · rintro ⟨hdepth, hcount⟩
    rw [deepest_exit] at hdepth
    exact ⟨hdepth, hcount⟩
  · rintro ⟨hdepth, hcount⟩
    exact ⟨by rwa [deepest_exit], hcount⟩

end Progress

open Progress

/-- Tuples nest too deep, or there are too many of them. -/
def Fault.OfRoom (f : Fault) : Prop :=
  f.cause = .tupleDepthLimitExceeded ∨ f.cause = .tupleNodeCountLimitExceeded

/-- The length of a tuple is held against its limit without regard to other tuples. -/
theorem exceededLimit?_continuedBy {p q : Progress} {tag : String}
    (h : p.RoomFor (q.enter.add tag)) (length : Nat) :
    exceededLimit? tag length (p.continuedBy (q.enter.add tag)) =
      exceededLimit? tag length (q.enter.add tag) := by
  obtain ⟨-, hdepth, hcount⟩ := roomFor_enter.mp h
  have hd : ¬Limits.depth < (p.continuedBy (q.enter.add tag)).depth := Nat.not_lt.mpr hdepth
  have hn : ¬Limits.nodes < (p.continuedBy (q.enter.add tag)).nodeCount := Nat.not_lt.mpr hcount
  have hd' : ¬Limits.depth < (q.enter.add tag).depth := by
    rw [add_depth, enter_depth]
    omega
  have hn' : ¬Limits.nodes < (q.enter.add tag).nodeCount := by
    rw [add_nodeCount, enter_nodeCount]
    omega
  rw [exceededLimit?, if_neg hd, if_neg hn, exceededLimit?, if_neg hd', if_neg hn']

theorem exceededLimit?_ofRoom {p q : Progress} {tag : String} (hq : p.RoomFor q)
    (h : ¬p.RoomFor (q.enter.add tag)) (length : Nat) :
    ∃ f, exceededLimit? tag length (p.continuedBy (q.enter.add tag)) = some f ∧ f.OfRoom := by
  by_cases hdepth : Limits.depth < (p.continuedBy (q.enter.add tag)).depth
  · exact ⟨_, if_pos hdepth, .inl rfl⟩
  · have hcount : Limits.nodes < (p.continuedBy (q.enter.add tag)).nodeCount := by
      by_contra hcount
      exact h (roomFor_enter.mpr ⟨hq, Nat.not_lt.mp hdepth, Nat.not_lt.mp hcount⟩)
    exact ⟨_, (if_neg hdepth).trans (if_pos hcount), .inr rfl⟩

variable {α : Type} {β : Type}

/-- From `p`, continued by any `s`, the parse does what it does from `s` if there is room for that
in `p`; if there is none it fails for that reason. -/
structure GoesOn (x : Parse α) : Prop where
  room {p s : Progress} : p.RoomFor (outcome x s).2 → p.RoomFor s
  outcome_eq {p s : Progress} : p.RoomFor (outcome x s).2 →
    outcome x (p.continuedBy s) = ((outcome x s).1, p.continuedBy (outcome x s).2)
  fails {p s : Progress} : p.RoomFor s → ¬p.RoomFor (outcome x s).2 →
    ∃ f q, Fails x (p.continuedBy s) f q ∧ f.OfRoom

namespace GoesOn

theorem liftExcept (x : Except Fault α) : GoesOn (liftExcept x) where
  room h := by rwa [outcome_liftExcept] at h
  outcome_eq _ := by simp only [outcome_liftExcept]
  fails h hq := by
    rw [outcome_liftExcept] at hq
    exact absurd h hq

theorem pure (a : α) : GoesOn (pure a) := liftExcept (.ok a)

theorem throw (f : Fault) : GoesOn (throw f : Parse α) := liftExcept (.error f)

theorem bind {x : Parse α} {g : α → Parse β} (hx : GoesOn x) (hg : ∀ a, GoesOn (g a)) :
    GoesOn (x >>= g) where
  room {p s} h := by
    rw [outcome_bind] at h
    apply hx.room
    rcases hr : outcome x s with ⟨e | a, r⟩ <;> rw [hr] at h
    · exact h
    · exact (hg a).room h
  outcome_eq {p s} h := by
    rw [outcome_bind] at h ⊢
    rw [outcome_bind]
    rcases hr : outcome x s with ⟨e | a, r⟩ <;> rw [hr] at h
    · rw [hx.outcome_eq (hr ▸ h), hr]
    · have hroom : p.RoomFor r := (hg a).room h
      rw [hx.outcome_eq (hr ▸ hroom), hr]
      exact (hg a).outcome_eq h
  fails {p s} h hq := by
    by_cases hroom : p.RoomFor (outcome x s).2
    · rw [outcome_bind] at hq
      simp only [Fails, outcome_bind, hx.outcome_eq hroom]
      rcases hr : outcome x s with ⟨e | a, r⟩ <;> rw [hr] at hq hroom
      · exact absurd hroom hq
      · exact (hg a).fails hroom hq
    · obtain ⟨f, q, hf, hof⟩ := hx.fails h hroom
      exact ⟨f, q, fails_bind.mpr (.inl hf), hof⟩

theorem parseAll {xs : List Part} (h : ∀ x ∈ xs, GoesOn x.parse) : GoesOn (parseAll xs) := by
  induction xs with
  | nil => exact pure ()
  | cons x xs ih =>
    obtain ⟨hx, hxs⟩ := List.forall_mem_cons.mp h
    exact hx.bind fun _ => ih hxs

end GoesOn

/-- A tuple is entered, what is in it gives it a kind, and it is left. -/
def inTuple (tag : String) (length : Nat) (x : Parse Kind) : Parse Unit := do
  let index ← enterTuple tag length
  let k ← x
  leaveTuple index k

section InTuple

variable {tag : String} {length : Nat} {x : Parse Kind} {p s : Progress}

theorem outcome_inTuple : outcome (inTuple tag length x) s =
    match exceededLimit? tag length (s.enter.add tag) with
    | some f => (.error f, s.enter.add tag)
    | none =>
      match outcome x (s.enter.add tag) with
      | (.ok k, q) => (.ok (), q.exit ((s.enter.add tag).nodes.size - 1) k)
      | (.error f, q) => (.error f, q) := by
  rw [inTuple, outcome_bind, outcome_enterTuple]
  cases exceededLimit? tag length (s.enter.add tag) with
  | some f => rfl
  | none =>
    dsimp only
    rw [outcome_bind]
    rcases outcome x (s.enter.add tag) with ⟨e | k, q⟩ <;> rfl

/-- Leaving the tuple makes no room and takes none. -/
theorem roomFor_inTuple (h : exceededLimit? tag length (s.enter.add tag) = none) :
    p.RoomFor (outcome (inTuple tag length x) s).2 ↔
      p.RoomFor (outcome x (s.enter.add tag)).2 := by
  rw [outcome_inTuple, h]
  rcases outcome x (s.enter.add tag) with ⟨e | k, r⟩
  · rfl
  · exact roomFor_exit

theorem GoesOn.room_enter (hx : GoesOn x) (h : p.RoomFor (outcome (inTuple tag length x) s).2) :
    p.RoomFor (s.enter.add tag) := by
  cases hl : exceededLimit? tag length (s.enter.add tag) with
  | some f => rwa [outcome_inTuple, hl] at h
  | none => exact hx.room ((roomFor_inTuple hl).mp h)

/-- What is in the tuple leaves the tuples that it enters, and then the tuple itself is left by way
of its own entry. -/
theorem GoesOn.inTuple (hx : GoesOn x) (hdepth : ∀ {s k q}, Runs x s k q → q.depth = s.depth)
    (tag : String) (length : Nat) : GoesOn (inTuple tag length x) where
  room h := (roomFor_enter.mp (hx.room_enter h)).1
  outcome_eq {p s} h := by
    rw [outcome_inTuple, continuedBy_enter, exceededLimit?_continuedBy (hx.room_enter h) length]
    cases hl : exceededLimit? tag length (s.enter.add tag) with
    | some f => rw [outcome_inTuple, hl]
    | none =>
      rw [outcome_inTuple, hl]
      dsimp only
      rw [hx.outcome_eq ((roomFor_inTuple hl).mp h)]
      rcases hr : outcome x (s.enter.add tag) with ⟨e | k, r⟩
      · rfl
      · have hopen : 0 < r.depth := (hdepth hr).symm ▸ Nat.succ_pos s.depth
        have hindex : (p.continuedBy (s.enter.add tag)).nodes.size - 1 =
            p.nodes.size + ((s.enter.add tag).nodes.size - 1) := by
          simp [continuedBy]
        dsimp only
        rw [hindex, continuedBy_exit p hopen]
  fails {p s} h hq := by
    by_cases hroom : p.RoomFor (s.enter.add tag)
    · cases hl : exceededLimit? tag length (s.enter.add tag) with
      | some f =>
        rw [outcome_inTuple, hl] at hq
        exact absurd hroom hq
      | none =>
        obtain ⟨f, q, hf, hof⟩ := hx.fails hroom fun h => hq ((roomFor_inTuple hl).mpr h)
        refine ⟨f, q, ?_, hof⟩
        rw [Fails, outcome_inTuple, continuedBy_enter, exceededLimit?_continuedBy hroom, hl]
        dsimp only
        rw [hf]
    · obtain ⟨f, hf, hof⟩ := exceededLimit?_ofRoom h hroom length
      refine ⟨f, p.continuedBy (s.enter.add tag), ?_, hof⟩
      rw [Fails, outcome_inTuple, continuedBy_enter, hf]

end InTuple

/-- What is parsed within a tuple. -/
def bodyParse (body : Except Fault Body) : Parse Kind := do
  let b ← liftExcept body
  parseAll b.parts
  return b.kind

theorem parse_tuple (tag : String) (params : List Value) (body : Except Fault Body) :
    (Form.tuple tag params body).parse = inTuple tag (params.length + 1) (bodyParse body) := by
  simp [Form.parse, inTuple, bodyParse]

theorem depth_of_runs_bodyParse {body : Except Fault Body} {s q : Progress} {k : Kind}
    (h : Runs (bodyParse body) s k q) : q.depth = s.depth := by
  simp only [bodyParse, runs_bind, runs_liftExcept, runs_pure] at h
  obtain ⟨b, _, ⟨-, rfl⟩, _, r, hr, -, rfl⟩ := h
  exact (kept_opens.runs_all hr).depth_eq

theorem Part.goesOn (x : Part) : GoesOn x.parse := by
  induction x using Part.induction with
  | h x ih =>
    rw [x.parse_eq]
    cases hx : x.form with
    | scalar => exact .pure ()
    | refused f => exact .throw f
    | tuple tag params body =>
      rw [parse_tuple]
      refine GoesOn.inTuple ?_ depth_of_runs_bodyParse tag _
      cases body with
      | error f => exact .throw f
      | ok b => exact (GoesOn.parseAll (ih tag params b hx)).bind fun _ => .pure _

/-- From `p` the parse does what it does from the beginning, in addition to what has been done in
`p`, unless it fails for want of room; there is room for success just when the deepest tuple is not
too deep below those open in `p`, and the number of all tuples is not too great. -/
structure Continues (x : Parse α) (p : Progress) : Prop where
  outcome_eq : (∀ f q, Fails x p f q → ¬f.OfRoom) →
    outcome x p = ((outcome x .start).1, p.continuedBy (outcome x .start).2)
  runs_iff : ∀ a q, Runs x .start a q → ((∃ b r, Runs x p b r) ↔
    p.depth + q.deepest ≤ Limits.depth ∧ p.nodeCount + q.nodeCount ≤ Limits.nodes)

theorem outcome_void (x : Parse α) (p : Progress) :
    outcome ((fun _ => ()) <$> x) p = ((outcome x p).1.map fun _ => (), (outcome x p).2) := by
  rw [map_eq_pure_bind, outcome_bind]
  rcases outcome x p with ⟨e | a, q⟩ <;> rfl

section Void

variable {x : Parse α} {G : α → Prop} {ts : Nat → List Tuple} {p : Progress}

theorem outcome_of_room (hy : Yields x G ts) (hx : GoesOn ((fun _ => ()) <$> x))
    (hcount : p.nodeCount ≤ Limits.nodes) (h : p.RoomFor (outcome x .start).2) :
    outcome x p = ((outcome x .start).1, p.continuedBy (outcome x .start).2) := by
  have hvoid : p.RoomFor (outcome ((fun _ => ()) <$> x) .start).2 := by rwa [outcome_void]
  have heq := hx.outcome_eq hvoid
  rw [continuedBy_start, outcome_void, outcome_void] at heq
  obtain ⟨hresult, hq⟩ := Prod.mk.inj heq
  refine Prod.ext ?_ hq
  rcases hs : outcome x .start with ⟨e | a, s⟩ <;> rcases hp : outcome x p with ⟨f | b, q⟩ <;>
    rw [hs, hp] at hresult
  · cases hresult
    rfl
  · cases hresult
  · cases hresult
  · exact congrArg Except.ok (hy.result_eq hcount (Nat.zero_le _) hp hs)

theorem fails_of_not_room (hx : GoesOn ((fun _ => ()) <$> x)) (hdepth : p.depth ≤ Limits.depth)
    (hcount : p.nodeCount ≤ Limits.nodes) (h : ¬p.RoomFor (outcome x .start).2) :
    ∃ f q, Fails x p f q ∧ f.OfRoom := by
  have hvoid : ¬p.RoomFor (outcome ((fun _ => ()) <$> x) .start).2 := by rwa [outcome_void]
  obtain ⟨f, q, hf, hof⟩ := hx.fails (roomFor_start hdepth hcount) hvoid
  rw [continuedBy_start, map_eq_pure_bind, fails_bind] at hf
  obtain hf | ⟨_, _, -, hf⟩ := hf
  · exact ⟨f, q, hf, hof⟩
  · exact absurd hf not_fails_pure

theorem Continues.of_goesOn (hy : Yields x G ts) (hx : GoesOn ((fun _ => ()) <$> x))
    (hdepth : p.depth ≤ Limits.depth) (hcount : p.nodeCount ≤ Limits.nodes) : Continues x p where
  outcome_eq h := by
    apply outcome_of_room hy hx hcount
    by_contra hroom
    obtain ⟨f, q, hf, hof⟩ := fails_of_not_room hx hdepth hcount hroom
    exact h f q hf hof
  runs_iff a q ha := by
    have hq : (outcome x .start).2 = q := congrArg Prod.snd ha
    constructor
    · rintro ⟨b, r, hb⟩
      by_contra hroom
      obtain ⟨f, q', hf, -⟩ := fails_of_not_room hx hdepth hcount
        fun h => hroom (hq ▸ ⟨h.depth, h.nodeCount⟩)
      exact absurd (hb.symm.trans hf) (by simp)
    · rintro ⟨hdeepest, hnodes⟩
      have heq := outcome_of_room hy hx hcount (hq ▸ ⟨hdeepest, hnodes⟩)
      rw [ha] at heq
      exact ⟨a, _, heq⟩

end Void

/-- Parsing a value within open tuples, as a criterion or as an operand, gives what it gives from the
beginning, and logs the same further down, unless the tuples then nest too deep or become too many.
A parse that succeeds from the beginning does so there too just when neither is the case. -/
theorem parse_continues (v : Value) {p : Progress} (hdepth : p.depth ≤ Limits.depth)
    (hcount : p.nodeCount ≤ Limits.nodes) :
    Continues (criterion v) p ∧ Continues (operand v) p :=
  ⟨.of_goesOn (accepted v).criterion (Part.goesOn (.criterion v)) hdepth hcount,
    .of_goesOn (accepted v).operand (Part.goesOn (.operand v)) hdepth hcount⟩

/-- Three tuples, one within the other. -/
def nestedThrice : Criterion :=
  .not (.comparison .equals (.field .volume) (.unary .abs (.field .trades)))

def nestedThriceLog : List ParsedNode :=
  [⟨1, "Not", some .not⟩, ⟨2, "=", some .numericEquals⟩, ⟨3, "Abs", some .numericAbs⟩]

theorem runs_nestedThrice :
    Runs (criterion nestedThrice.wire) .start nestedThrice ⟨0, 3, nestedThriceLog.toArray⟩ := by
  obtain ⟨⟨depth, count, nodes⟩, hp⟩ : ∃ p, parse nestedThrice.wire = .ok ⟨nestedThrice, p⟩ :=
    (parse_wire_iff (by decide)).mpr ⟨by decide, by decide, rfl⟩
  obtain ⟨hdepth, hlog⟩ := appends_of_parse hp
  have hentries : nestedThrice.tuples.map Placed.entry = nestedThriceLog := by decide +kernel
  obtain rfl : depth = 0 := hdepth
  obtain rfl : count = 3 := hlog.nodeCount_eq
  obtain rfl : nodes = nestedThriceLog.toArray :=
    Array.toList_inj.mp (hlog.nodes_eq.trans hentries)
  exact parse_eq_ok.mp hp

/-- There is room for three tuples and no more. -/
theorem parse_continues_nestedThrice :
    (125 ≤ Limits.depth ∧ 99997 ≤ Limits.nodes) ∧
      Runs (criterion nestedThrice.wire) ⟨125, 99997, #[⟨9, "Or", none⟩]⟩ nestedThrice
        ⟨125, 100000, #[⟨9, "Or", none⟩, ⟨126, "Not", some .not⟩,
          ⟨127, "=", some .numericEquals⟩, ⟨128, "Abs", some .numericAbs⟩]⟩ ∧
      (¬∃ c q, Runs (criterion nestedThrice.wire) ⟨126, 0, #[]⟩ c q) ∧
      ¬∃ c q, Runs (criterion nestedThrice.wire) ⟨0, 99998, #[]⟩ c q := by
  have hfull := (parse_continues nestedThrice.wire (p := ⟨125, 99997, #[⟨9, "Or", none⟩]⟩)
    (by decide) (by decide)).1
  have hdeep := (parse_continues nestedThrice.wire (p := ⟨126, 0, #[]⟩) (by decide)
    (by decide)).1
  have hmany := (parse_continues nestedThrice.wire (p := ⟨0, 99998, #[]⟩) (by decide)
    (by decide)).1
  refine ⟨by decide, ?_, ?_, ?_⟩
  · obtain ⟨c, q, hrun⟩ := (hfull.runs_iff _ _ runs_nestedThrice).mpr (by decide)
    have heq := hfull.outcome_eq fun f r hf => absurd (hrun.symm.trans hf) (by simp)
    rw [runs_nestedThrice] at heq
    rw [Runs, heq]
    simp [continuedBy, nestedThriceLog, ParsedNode.deepened]
  · rw [hdeep.runs_iff _ _ runs_nestedThrice]
    decide
  · rw [hmany.runs_iff _ _ runs_nestedThrice]
    decide

end ScanCriteria.Wire
