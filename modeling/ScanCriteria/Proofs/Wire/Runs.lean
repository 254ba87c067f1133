import ScanCriteria.Proofs.Wire.Tuples
import ScanCriteria.Wire.Parse

/-!
# Runs of parses

`Runs x p a q` says that the parse `x` takes the progress `p` to `q` and returns `a`. What a parse
accepts is said by `Yields x G ts`: it returns `a` just when `G a` holds and the tuples `ts` keep to
the limits, and then it has counted these tuples and left all of them.
-/
namespace ScanCriteria.Wire
open Json

variable {α β : Type}

/-- What a parse comes to from some progress. -/
def outcome (x : Parse α) (p : Progress) : Except Fault α × Progress := x p

theorem outcome_bind (x : Parse α) (f : α → Parse β) (p : Progress) :
    outcome (x >>= f) p = match outcome x p with
      | (.ok a, q) => outcome (f a) q
      | (.error e, q) => (.error e, q) := by
  unfold outcome
  simp only [bind, ExceptT.bind, ExceptT.mk, StateT.bind, ExceptT.bindCont]
  rcases x p with ⟨_ | a, q⟩ <;> rfl

theorem outcome_liftExcept (x : Except Fault α) (p : Progress) :
    outcome (liftExcept x) p = (x, p) := by
  cases x <;> rfl

theorem outcome_enterTuple (tag : String) (length : Nat) (p : Progress) :
    outcome (enterTuple tag length) p = match exceededLimit? tag length (p.enter.add tag) with
      | some f => (.error f, p.enter.add tag)
      | none => (.ok ((p.enter.add tag).nodes.size - 1), p.enter.add tag) := by
  have henter : outcome (enterTuple tag length) p =
      outcome (match exceededLimit? tag length (p.enter.add tag) with
        | some f => throw f
        | none => return (p.enter.add tag).nodes.size - 1) (p.enter.add tag) := rfl
  rw [henter]
  cases exceededLimit? tag length (p.enter.add tag) <;> rfl

def Runs (x : Parse α) (p : Progress) (a : α) (q : Progress) : Prop := outcome x p = (.ok a, q)

theorem runs_pure {a b : α} {p q : Progress} : Runs (pure b) p a q ↔ b = a ∧ p = q := by
  have hpure : outcome (pure b) p = (.ok b, p) := rfl
  rw [Runs, hpure, Prod.mk.injEq, Except.ok.injEq]

theorem runs_bind {x : Parse α} {f : α → Parse β} {b : β} {p q : Progress} :
    Runs (x >>= f) p b q ↔ ∃ a r, Runs x p a r ∧ Runs (f a) r b q := by
  unfold Runs
  rw [outcome_bind]
  rcases outcome x p with ⟨e | a, r⟩ <;> simp

theorem not_runs_throw {f : Fault} {a : α} {p q : Progress} : ¬Runs (throw f) p a q := nofun

theorem runs_liftExcept {x : Except Fault α} {a : α} {p q : Progress} :
    Runs (liftExcept x) p a q ↔ x = .ok a ∧ p = q := by
  rw [Runs, outcome_liftExcept, Prod.mk.injEq]

theorem runs_enterTuple {tag : String} {length index : Nat} {p q : Progress} :
    Runs (enterTuple tag length) p index q ↔
      exceededLimit? tag length (p.enter.add tag) = none ∧
        (p.enter.add tag).nodes.size - 1 = index ∧ p.enter.add tag = q := by
  rw [Runs, outcome_enterTuple]
  cases exceededLimit? tag length (p.enter.add tag) with
  | some f => simp
  | none => simp only [Prod.mk.injEq, Except.ok.injEq, true_and]

theorem runs_leaveTuple {index : Nat} {k : Kind} {u : Unit} {p q : Progress} :
    Runs (leaveTuple index k) p u q ↔ p.exit index k = q := by
  have hleave : outcome (leaveTuple index k) p = (.ok (), p.exit index k) := rfl
  simp [Runs, hleave]

/-- The limits are held against the tuple with the others that are open or have been. -/
theorem exceededLimit?_eq_none_iff {tag : String} {length : Nat} {p : Progress} :
    exceededLimit? tag length p = none ↔
      p.depth ≤ Limits.depth ∧ p.nodeCount ≤ Limits.nodes ∧ length ≤ Limits.length := by
  unfold exceededLimit?
  split
  · simp only [reduceCtorEq, false_iff]
    omega
  · split
    · simp only [reduceCtorEq, false_iff]
      omega
    · split
      · simp only [reduceCtorEq, false_iff]
        omega
      · simp only [true_iff]
        omega

theorem runs_tuple {x : Parse α} {tag : String} {length : Nat} {k : α → Kind} {g : α → β} {b : β}
    {p q : Progress} :
    Runs (do
        let index ← enterTuple tag length
        let a ← x
        leaveTuple index (k a)
        return g a) p b q ↔
      exceededLimit? tag length (p.enter.add tag) = none ∧
        ∃ a r, Runs x (p.enter.add tag) a r ∧ g a = b ∧
          r.exit ((p.enter.add tag).nodes.size - 1) (k a) = q := by
  simp only [runs_bind, runs_enterTuple, runs_leaveTuple, runs_pure]
  constructor
  · rintro ⟨index, r, ⟨hl, rfl, rfl⟩, a, r', hr, _, _, rfl, rfl, rfl⟩
    exact ⟨hl, a, r', hr, rfl, rfl⟩
  · rintro ⟨hl, a, r, hr, rfl, rfl⟩
    exact ⟨_, _, ⟨hl, rfl, rfl⟩, a, r, hr, (), _, rfl, rfl, rfl⟩

/-- The parse stops with the fault, and progress is then `q`. -/
def Fails (x : Parse α) (p : Progress) (f : Fault) (q : Progress) : Prop :=
  outcome x p = (.error f, q)

theorem not_fails_pure {a : α} {f : Fault} {p q : Progress} : ¬Fails (pure a) p f q := nofun

theorem fails_throw {f g : Fault} {p q : Progress} :
    Fails (throw g : Parse α) p f q ↔ g = f ∧ p = q := by
  have hthrow : outcome (throw g : Parse α) p = (.error g, p) := rfl
  rw [Fails, hthrow, Prod.mk.injEq, Except.error.injEq]

theorem fails_bind {x : Parse α} {g : α → Parse β} {f : Fault} {p q : Progress} :
    Fails (x >>= g) p f q ↔ Fails x p f q ∨ ∃ a r, Runs x p a r ∧ Fails (g a) r f q := by
  unfold Fails Runs
  rw [outcome_bind]
  rcases outcome x p with ⟨e | a, r⟩ <;> simp

theorem fails_liftExcept {x : Except Fault α} {f : Fault} {p q : Progress} :
    Fails (liftExcept x) p f q ↔ x = .error f ∧ p = q := by
  rw [Fails, outcome_liftExcept, Prod.mk.injEq]

theorem fails_enterTuple {tag : String} {length : Nat} {f : Fault} {p q : Progress} :
    Fails (enterTuple tag length) p f q ↔
      exceededLimit? tag length (p.enter.add tag) = some f ∧ p.enter.add tag = q := by
  rw [Fails, outcome_enterTuple]
  cases exceededLimit? tag length (p.enter.add tag) <;> simp

theorem not_fails_leaveTuple {index : Nat} {k : Kind} {f : Fault} {p q : Progress} :
    ¬Fails (leaveTuple index k) p f q := nofun

/-- From progress within the limit, the parse returns `a` just when `G a` holds and the tuples keep
to the limits; it has counted them all then, and left them. -/
structure Yields (x : Parse α) (G : α → Prop) (ts : Nat → List Tuple) : Prop where
  runs_iff {p : Progress} {a : α} : p.nodeCount ≤ Limits.nodes →
    ((∃ q, Runs x p a q) ↔ G a ∧ Fit p.nodeCount (ts (p.depth + 1)))
  depth_eq {p q : Progress} {a : α} : Runs x p a q → q.depth = p.depth
  nodeCount_eq {p q : Progress} {a : α} : Runs x p a q →
    q.nodeCount = p.nodeCount + (ts (p.depth + 1)).length

namespace Yields

variable {G H : α → Prop} {ts us : Nat → List Tuple}

/-- Two runs do not differ in what they give, wherever they start. -/
theorem result_eq {x : Parse α} (h : Yields x G ts) {p q r s : Progress} {a b : α}
    (hp : p.nodeCount ≤ Limits.nodes) (hr : r.nodeCount ≤ Limits.nodes) (ha : Runs x p a q)
    (hb : Runs x r b s) : a = b := by
  have hfit := ((h.runs_iff hp).mp ⟨q, ha⟩).2
  have hG := ((h.runs_iff hr).mp ⟨s, hb⟩).1
  obtain ⟨t, ht⟩ := (h.runs_iff hp).mpr ⟨hG, hfit⟩
  exact Except.ok.inj (congrArg Prod.fst (ha.symm.trans ht))

theorem congr {x : Parse α} (h : Yields x G ts) (hG : ∀ a, G a ↔ H a) : Yields x H ts where
  runs_iff hp := by rw [h.runs_iff hp, hG]
  depth_eq := h.depth_eq
  nodeCount_eq := h.nodeCount_eq

theorem throw {f : Fault} (hG : ∀ a, ¬G a) : Yields (throw f) G ts where
  runs_iff _ := ⟨fun ⟨_, h⟩ => absurd h not_runs_throw, fun h => absurd h.1 (hG _)⟩
  depth_eq h := absurd h not_runs_throw
  nodeCount_eq h := absurd h not_runs_throw

theorem liftExcept {x : Except Fault α} (hG : ∀ a, x = .ok a ↔ G a)
    (hts : ∀ a, G a → ∀ d, ts d = []) : Yields (liftExcept x) G ts where
  runs_iff {p a} hp := by
    simp only [runs_liftExcept, exists_and_left, exists_eq', and_true, hG]
    constructor
    · intro h
      rw [hts a h]
      exact ⟨h, nofun, hp⟩
    · exact And.left
  depth_eq h := by
    obtain ⟨-, rfl⟩ := runs_liftExcept.mp h
    rfl
  nodeCount_eq h := by
    obtain ⟨hx, rfl⟩ := runs_liftExcept.mp h
    rw [hts _ ((hG _).mp hx)]
    rfl

theorem pure (b : α) : Yields (pure b) (b = ·) fun _ => [] := by
  apply Yields.liftExcept (x := .ok b) <;> simp

theorem bind {x : Parse α} {f : α → Parse β} {K : α → β → Prop} (hx : Yields x G ts)
    (hf : ∀ a, Yields (f a) (K a) us) :
    Yields (x >>= f) (fun b => ∃ a, G a ∧ K a b) fun d => ts d ++ us d where
  runs_iff {p b} hp := by
    simp only [runs_bind, fit_append]
    constructor
    · rintro ⟨q, a, r, hr, hq⟩
      obtain ⟨hG, hfit⟩ := (hx.runs_iff hp).mp ⟨r, hr⟩
      have hn := hx.nodeCount_eq hr
      obtain ⟨hK, hfit'⟩ := ((hf a).runs_iff (hn ▸ hfit.2)).mp ⟨q, hq⟩
      rw [hn, hx.depth_eq hr] at hfit'
      exact ⟨⟨a, hG, hK⟩, hfit, hfit'⟩
    · rintro ⟨⟨a, hG, hK⟩, hfit, hfit'⟩
      obtain ⟨r, hr⟩ := (hx.runs_iff hp).mpr ⟨hG, hfit⟩
      have hn := hx.nodeCount_eq hr
      rw [← hn, ← hx.depth_eq hr] at hfit'
      obtain ⟨q, hq⟩ := ((hf a).runs_iff (hn ▸ hfit.2)).mpr ⟨hK, hfit'⟩
      exact ⟨q, a, r, hr, hq⟩
  depth_eq h := by
    obtain ⟨a, r, hr, hq⟩ := runs_bind.mp h
    rw [(hf a).depth_eq hq, hx.depth_eq hr]
  nodeCount_eq h := by
    obtain ⟨a, r, hr, hq⟩ := runs_bind.mp h
    rw [(hf a).nodeCount_eq hq, hx.nodeCount_eq hr, hx.depth_eq hr, List.length_append,
      Nat.add_assoc]

/-- What follows has no tuples. -/
theorem andThen {x : Parse α} {f : α → Parse β} {K : α → β → Prop} (hx : Yields x G ts)
    (hf : ∀ a, Yields (f a) (K a) fun _ => []) :
    Yields (x >>= f) (fun b => ∃ a, G a ∧ K a b) ts := by
  have h := hx.bind hf
  simpa only [List.append_nil] using h

theorem map {x : Parse α} (hx : Yields x G ts) (g : α → β) :
    Yields (x >>= fun a => Pure.pure (g a)) (fun b => ∃ a, G a ∧ g a = b) ts :=
  hx.andThen fun a => Yields.pure (g a)

/-- A tuple is entered, its parameters are read, and it is left. -/
theorem tuple {x : Parse α} {tag : String} {params : List Value} (k : α → Kind) (g : α → β)
    (hx : Yields x (fun a => G a ∧ armsFit tag params) ts) :
    Yields (do
        let index ← enterTuple tag (params.length + 1)
        let a ← x
        leaveTuple index (k a)
        return g a)
      (fun b => ∃ a, G a ∧ g a = b) fun d => ⟨d, .string tag :: params⟩ :: ts (d + 1) where
  runs_iff {p b} _ := by
    have hfit : Fit p.nodeCount
          (⟨p.depth + 1, .string tag :: params⟩ :: ts (p.depth + 1 + 1)) ↔
        (p.depth + 1 ≤ Limits.depth ∧ p.nodeCount + 1 ≤ Limits.nodes ∧
          params.length + 1 ≤ Limits.length) ∧ armsFit tag params ∧
          Fit (p.nodeCount + 1) (ts (p.depth + 1 + 1)) := by
      rw [← List.singleton_append, fit_append]
      simp only [Fit, List.forall_mem_singleton, Tuple.fits_headed, List.length_singleton]
      grind
    have hrun (a : α) (hn : p.nodeCount + 1 ≤ Limits.nodes) :
        (∃ q, Runs x (p.enter.add tag) a q) ↔
          (G a ∧ armsFit tag params) ∧ Fit (p.nodeCount + 1) (ts (p.depth + 1 + 1)) :=
      hx.runs_iff hn
    simp only [runs_tuple, exceededLimit?_eq_none_iff, hfit]
    constructor
    · rintro ⟨q, hl, a, r, hr, rfl, -⟩
      obtain ⟨⟨hG, ha⟩, hf⟩ := (hrun a hl.2.1).mp ⟨r, hr⟩
      exact ⟨⟨a, hG, rfl⟩, hl, ha, hf⟩
    · rintro ⟨⟨a, hG, rfl⟩, hl, ha, hf⟩
      obtain ⟨r, hr⟩ := (hrun a hl.2.1).mpr ⟨⟨hG, ha⟩, hf⟩
      exact ⟨_, hl, a, r, hr, rfl, rfl⟩
  depth_eq h := by
    obtain ⟨-, a, r, hr, -, rfl⟩ := runs_tuple.mp h
    have hd := hx.depth_eq hr
    simp only [Progress.add_depth, Progress.enter_depth] at hd
    rw [Progress.exit_depth, hd, Nat.add_sub_cancel]
  nodeCount_eq h := by
    obtain ⟨-, a, r, hr, -, rfl⟩ := runs_tuple.mp h
    have hn := hx.nodeCount_eq hr
    simp only [Progress.add_depth, Progress.enter_depth, Progress.add_nodeCount,
      Progress.enter_nodeCount] at hn
    rw [Progress.exit_nodeCount, hn, List.length_cons, Nat.add_assoc, Nat.add_comm 1]

end Yields

end ScanCriteria.Wire
