import Mathlib.Logic.Function.Iterate
import ScanCriteria.Proofs.Wire.LimitFaults

/-!
# Parsing step by step

A parse is a run of a machine that keeps what is still to do: parts to parse and tuples to leave. A
step begins a part or leaves a tuple. What the recursive parse comes to is where the run ends, so
what holds of every state of a run holds throughout the parse. The limits do: the tuple that exceeds
one ends the run.
-/
namespace ScanCriteria.Wire
open Json

/-- What is still to do. -/
inductive Task where
  | parse (x : Part)
  /-- Leaves the tuple logged at the index, with its kind. -/
  | leave (index : Nat) (k : Kind)

inductive State where
  | running (tasks : List Task) (p : Progress)
  | stopped (f : Fault) (p : Progress)

/-- Begins a part: a tuple is entered and held against the limits, and its own parts come before the
other tasks. -/
def Form.begin (w : List Task) (p : Progress) : Form → State
  | .scalar => .running w p
  | .refused f => .stopped f p
  | .tuple tag params body =>
    match exceededLimit? tag (params.length + 1) (p.enter.add tag), body with
    | some f, _ => .stopped f (p.enter.add tag)
    | none, .error f => .stopped f (p.enter.add tag)
    | none, .ok b =>
      .running (b.parts.map .parse ++ .leave ((p.enter.add tag).nodes.size - 1) b.kind :: w)
        (p.enter.add tag)

def step : State → State
  | .running (.parse x :: w) p => x.form.begin w p
  | .running (.leave index k :: w) p => .running w (p.exit index k)
  | s => s

/-- The state of the parse of a value after a number of steps. -/
def stateAt (v : Value) (n : Nat) : State := step^[n] (.running [.parse (.criterion v)] .start)

/-- The tuples that have been entered and not yet left. -/
def openTuples : List Task → Nat
  | [] => 0
  | .parse _ :: w => openTuples w
  | .leave _ _ :: w => openTuples w + 1

theorem openTuples_parts (xs : List Part) (w : List Task) :
    openTuples (xs.map .parse ++ w) = openTuples w := by
  induction xs with
  | nil => rfl
  | cons x xs ih => exact ih

namespace State

def progress : State → Progress
  | running _ p => p
  | stopped _ p => p

/-- How many calls are active: those whose tuple is to be left, and that of the part next to be
parsed. -/
def calls : State → Nat
  | running (.parse _ :: w) _ => openTuples w + 1
  | running w _ => openTuples w
  | stopped _ _ => 0

end State

/-- The machine comes from one state to the other. -/
def Reaches (s t : State) : Prop := ∃ n, step^[n] s = t

namespace Reaches

variable {s t u : State}

theorem refl (s : State) : Reaches s s := ⟨0, rfl⟩

theorem trans (h : Reaches s t) (h' : Reaches t u) : Reaches s u := by
  obtain ⟨n, rfl⟩ := h
  obtain ⟨m, rfl⟩ := h'
  exact ⟨m + n, Function.iterate_add_apply step m n s⟩

theorem ofStep (h : Reaches (step s) t) : Reaches s t := by
  obtain ⟨n, rfl⟩ := h
  exact ⟨n + 1, rfl⟩

end Reaches

theorem reaches_of_runs_all {xs : List Part}
    (hx : ∀ x ∈ xs, ∀ p q w, Runs x.parse p () q →
      Reaches (.running (.parse x :: w) p) (.running w q))
    {p q : Progress} (w : List Task) (h : Runs (parseAll xs) p () q) :
    Reaches (.running (xs.map .parse ++ w) p) (.running w q) := by
  induction xs generalizing p with
  | nil =>
    obtain rfl := runs_parseAll_nil.mp h
    exact .refl _
  | cons x xs ih =>
    obtain ⟨hx, hxs⟩ := List.forall_mem_cons.mp hx
    obtain ⟨r, hr, hq⟩ := runs_parseAll_cons.mp h
    exact (hx p r _ hr).trans (ih hxs hq)

/-- A part that is parsed is done with after some steps. -/
theorem reaches_of_runs (x : Part) : ∀ p q w, Runs x.parse p () q →
    Reaches (.running (.parse x :: w) p) (.running w q) := by
  induction x using Part.induction with
  | h x ih =>
    intro p q w h
    apply Reaches.ofStep
    rw [step]
    cases hx : x.form with
    | scalar =>
      obtain rfl := (runs_scalar hx).mp h
      exact .refl _
    | refused f => exact absurd h (not_runs_refused hx)
    | tuple tag params body =>
      obtain ⟨hl, b, r, rfl, hr, rfl⟩ := (runs_tuple_part hx).mp h
      simp only [Form.begin, hl]
      exact (reaches_of_runs_all (ih tag params b hx) _ hr).trans (.ofStep (.refl _))

theorem reaches_of_fails_all {xs : List Part} {f : Fault} {q : Progress}
    (hx : ∀ x ∈ xs, ∀ p w, Fails x.parse p f q →
      Reaches (.running (.parse x :: w) p) (.stopped f q))
    {p : Progress} (w : List Task) (h : Fails (parseAll xs) p f q) :
    Reaches (.running (xs.map .parse ++ w) p) (.stopped f q) := by
  obtain ⟨ys, x, zs, r, rfl, hys, hf⟩ := exists_of_fails_parseAll h
  rw [List.map_append, List.append_assoc]
  exact (reaches_of_runs_all (fun y _ => reaches_of_runs y) _ hys).trans (hx x (by simp) r _ hf)

/-- A part that fails stops the machine after some steps. -/
theorem reaches_of_fails (x : Part) {f : Fault} {q : Progress} : ∀ p w, Fails x.parse p f q →
    Reaches (.running (.parse x :: w) p) (.stopped f q) := by
  induction x using Part.induction with
  | h x ih =>
    intro p w h
    apply Reaches.ofStep
    rw [step]
    cases hx : x.form with
    | scalar => exact absurd h (not_fails_scalar hx)
    | refused g =>
      obtain ⟨rfl, rfl⟩ := (fails_refused hx).mp h
      exact .refl _
    | tuple tag params body =>
      obtain ⟨hl, rfl⟩ | ⟨hl, ⟨rfl, rfl⟩ | ⟨b, rfl, hf⟩⟩ := (fails_tuple_part hx).mp h
      · simp only [Form.begin, hl]
        exact .refl _
      · simp only [Form.begin, hl]
        exact .refl _
      · simp only [Form.begin, hl]
        exact reaches_of_fails_all (ih tag params b hx) _ hf

/-- A part that is parsed in the course of the parse of a value, with the progress made by then and
the number of calls active. -/
inductive Called (v : Value) : Part → Progress → Nat → Prop
  | root : Called v (.criterion v) .start 1
  | within {x y : Part} {p q : Progress} {calls : Nat} {tag : String} {params : List Value}
      {b : Body} {ys zs : List Part} :
      Called v x p calls → x.form = .tuple tag params (.ok b) →
      exceededLimit? tag (params.length + 1) (p.enter.add tag) = none →
      b.parts = ys ++ y :: zs → Runs (parseAll ys) (p.enter.add tag) () q →
      Called v y q (calls + 1)

/-- The machine comes to every call of the parse. -/
theorem Called.reaches {v : Value} {x : Part} {p : Progress} {calls : Nat}
    (h : Called v x p calls) :
    ∃ w, openTuples w + 1 = calls ∧
      Reaches (.running [.parse (.criterion v)] .start) (.running (.parse x :: w) p) := by
  induction h with
  | root => exact ⟨[], rfl, .refl _⟩
  | @within x y p q calls tag params b ys zs _ hx hl hparts hys ih =>
    obtain ⟨w, rfl, hreach⟩ := ih
    have hbegin : step (.running (.parse x :: w) p) =
        .running (ys.map .parse ++ .parse y :: (zs.map .parse ++
          .leave ((p.enter.add tag).nodes.size - 1) b.kind :: w)) (p.enter.add tag) := by
      simp only [step, hx, Form.begin, hl, hparts, List.map_append, List.map_cons,
        List.append_assoc, List.cons_append]
    refine ⟨zs.map .parse ++ .leave ((p.enter.add tag).nodes.size - 1) b.kind :: w, ?_, ?_⟩
    · rw [openTuples_parts]
      rfl
    · apply hreach.trans
      apply Reaches.ofStep
      rw [hbegin]
      exact reaches_of_runs_all (fun z _ => reaches_of_runs z) _ hys

/-- Where a run ends. -/
def lastState : Except Failure Parsed → State
  | .ok p => .running [] p.progress
  | .error f => .stopped f.fault f.progress

theorem step_lastState (r : Except Failure Parsed) : step (lastState r) = lastState r := by
  cases r <;> rfl

theorem reaches_lastState (v : Value) :
    Reaches (.running [.parse (.criterion v)] .start) (lastState (parse v)) := by
  cases h : parse v with
  | ok p => exact reaches_of_runs _ _ _ [] (runs_of_parse h)
  | error f => exact reaches_of_fails _ _ [] (parse_eq_error.mp h)

theorem Called.stateAt {v : Value} {x : Part} {p : Progress} {calls : Nat}
    (h : Called v x p calls) :
    ∃ n w, stateAt v n = .running (.parse x :: w) p ∧ (stateAt v n).calls = calls := by
  obtain ⟨w, hcalls, n, hn⟩ := h.reaches
  have hstate : Wire.stateAt v n = .running (.parse x :: w) p := hn
  exact ⟨n, w, hstate, hstate ▸ hcalls⟩

/-- From some step on the state is that of the result of the parse. -/
theorem stateAt_eq_lastState (v : Value) : ∃ n, ∀ m, n ≤ m → stateAt v m = lastState (parse v) := by
  obtain ⟨n, hn⟩ := reaches_lastState v
  refine ⟨n, fun m hm => ?_⟩
  obtain ⟨k, rfl⟩ := Nat.exists_eq_add_of_le' hm
  rw [stateAt, Function.iterate_add_apply, hn]
  exact Function.iterate_fixed (step_lastState _) k

/-- A run that stops shows the fault and the progress of the parse. -/
theorem parse_eq_error_of_stateAt {v : Value} {n : Nat} {f : Fault} {q : Progress}
    (h : stateAt v n = .stopped f q) : parse v = .error ⟨f, q⟩ := by
  obtain ⟨m, hm⟩ := stateAt_eq_lastState v
  have hlast : lastState (parse v) = .stopped f q := by
    rw [← hm (m + n) (Nat.le_add_right m n), stateAt, Function.iterate_add_apply]
    exact (congrArg _ h).trans (Function.iterate_fixed rfl m)
  cases hp : parse v with
  | ok p =>
    rw [hp] at hlast
    cases hlast
  | error g =>
    rw [hp] at hlast
    cases hlast
    rfl

/-- While the machine runs, the depth is the number of tuples to leave, and no limit has been
exceeded. -/
structure Bounded (w : List Task) (p : Progress) : Prop where
  depth_eq : p.depth = openTuples w
  nodeCount_eq : p.nodeCount = p.nodes.size
  depth_le : p.depth ≤ Limits.depth
  nodeCount_le : p.nodeCount ≤ Limits.nodes

theorem bounded_start (v : Value) : Bounded [.parse (.criterion v)] .start :=
  ⟨rfl, rfl, Nat.zero_le _, Nat.zero_le _⟩

theorem Form.begin_eq_running {x : Form} {w w' : List Task} {p q : Progress}
    (h : x.begin w p = .running w' q) :
    w = w' ∧ p = q ∨ ∃ tag length, ∃ b : Body,
      exceededLimit? tag length (p.enter.add tag) = none ∧
        b.parts.map .parse ++ .leave ((p.enter.add tag).nodes.size - 1) b.kind :: w = w' ∧
          p.enter.add tag = q := by
  cases x with
  | scalar =>
    cases h
    exact .inl ⟨rfl, rfl⟩
  | refused f => cases h
  | tuple tag params body =>
    simp only [begin] at h
    split at h
    · cases h
    · cases h
    · next b hl =>
      cases h
      exact .inr ⟨tag, _, b, hl, rfl, rfl⟩

/-- To begin a part keeps what is so bounded, if it does not stop the machine. -/
theorem Bounded.begin {x : Part} {w w' : List Task} {p q : Progress}
    (h : Bounded (.parse x :: w) p) (hs : x.form.begin w p = .running w' q) : Bounded w' q := by
  obtain ⟨hdepth, hcount, hd, hn⟩ := h
  obtain ⟨rfl, rfl⟩ | ⟨tag, length, b, hl, rfl, rfl⟩ := Form.begin_eq_running hs
  · exact ⟨hdepth, hcount, hd, hn⟩
  · obtain ⟨hd, hn, -⟩ := exceededLimit?_eq_none_iff.mp hl
    refine ⟨?_, ?_, hd, hn⟩
    · rw [openTuples_parts]
      exact congrArg (· + 1) hdepth
    · simp [hcount]

theorem Bounded.next {w w' : List Task} {p q : Progress} (h : Bounded w p)
    (hs : step (.running w p) = .running w' q) : Bounded w' q := by
  cases w with
  | nil =>
    cases hs
    exact h
  | cons t w =>
    cases t with
    | parse x => exact h.begin hs
    | leave index k =>
      cases hs
      obtain ⟨hdepth, hcount, hd, hn⟩ := h
      refine ⟨?_, ?_, Nat.le_trans (Nat.sub_le _ _) hd, hn⟩
      · rw [Progress.exit_depth, hdepth, openTuples, Nat.add_sub_cancel]
      · rw [Progress.exit_nodeCount, Progress.exit_nodes_size, hcount]

/-- The limits that are held against a tuple when it is entered. -/
def tupleLimits : List Cause :=
  [.tupleDepthLimitExceeded, .tupleNodeCountLimitExceeded, .tupleLengthLimitExceeded]

/-- A part is begun that is not what it should be, or that has a fault of its own; or a tuple is
entered that exceeds a limit. -/
theorem Form.begin_eq_stopped {x : Part} {w : List Task} {p q : Progress} {f : Fault}
    (h : x.form.begin w p = .stopped f q) :
    f.cause ∉ tupleLimits ∧ (p = q ∨ ∃ tag length,
        exceededLimit? tag length (p.enter.add tag) = none ∧ p.enter.add tag = q) ∨
      ∃ tag params, x.value = headed tag params ∧
        exceededLimit? tag (params.length + 1) (p.enter.add tag) = some f ∧
          p.enter.add tag = q := by
  have hlimit (hf : f.cause ∈ tupleLimits) : f.faultClass = .limit := by
    rw [Fault.faultClass]
    simp only [tupleLimits, List.mem_cons, List.not_mem_nil, or_false] at hf
    obtain hf | hf | hf := hf <;> rw [hf] <;> rfl
  cases hx : x.form with
  | scalar =>
    rw [hx] at h
    cases h
  | refused g =>
    rw [hx] at h
    cases h
    exact .inl ⟨fun hf => Part.refused_faultClass hx (hlimit hf), .inl rfl⟩
  | tuple tag params body =>
    simp only [hx, begin] at h
    split at h
    · next g hl =>
      cases h
      exact .inr ⟨tag, params, Part.value_eq hx, hl, rfl⟩
    · next g hl =>
      cases h
      refine .inl ⟨fun hf => ?_, .inr ⟨tag, _, hl, rfl⟩⟩
      obtain ⟨hcause, -⟩ := Part.body_limit hx (hlimit hf)
      rw [hcause] at hf
      exact absurd hf (by decide)
    · cases h

/-- The progress with which the machine stops, and which limits it shows to be exceeded. -/
structure Stop (f : Fault) (q : Progress) : Prop where
  nodeCount_eq : q.nodeCount = q.nodes.size
  depth_le : q.depth ≤ Limits.depth + 1
  nodeCount_le : q.nodeCount ≤ Limits.nodes + 1
  depth_iff : q.depth = Limits.depth + 1 ↔ f.cause = .tupleDepthLimitExceeded
  cause_of_nodeCount : q.nodeCount = Limits.nodes + 1 →
    f.cause = .tupleDepthLimitExceeded ∨ f.cause = .tupleNodeCountLimitExceeded
  nodeCount_of_cause : f.cause = .tupleNodeCountLimitExceeded → q.nodeCount = Limits.nodes + 1

theorem Stop.within {f : Fault} {q : Progress} (hsize : q.nodeCount = q.nodes.size)
    (hd : q.depth ≤ Limits.depth) (hn : q.nodeCount ≤ Limits.nodes) (hf : f.cause ∉ tupleLimits) :
    Stop f q where
  nodeCount_eq := hsize
  depth_le := by omega
  nodeCount_le := by omega
  depth_iff := by
    constructor
    · omega
    · intro hc
      rw [hc] at hf
      exact absurd (by decide) hf
  cause_of_nodeCount := by omega
  nodeCount_of_cause hc := by
    rw [hc] at hf
    exact absurd (by decide) hf

theorem Stop.exceeded {f : Fault} {p : Progress} {tag : String} {length : Nat}
    (hsize : p.nodeCount = p.nodes.size) (hd : p.depth ≤ Limits.depth)
    (hn : p.nodeCount ≤ Limits.nodes)
    (h : exceededLimit? tag length (p.enter.add tag) = some f) : Stop f (p.enter.add tag) := by
  have hdepth : (p.enter.add tag).depth = p.depth + 1 := rfl
  have hcount : (p.enter.add tag).nodeCount = p.nodeCount + 1 := rfl
  have hnodes : (p.enter.add tag).nodes.size = p.nodes.size + 1 := by simp
  obtain ⟨hf, hl⟩ | ⟨hf, hl, hl'⟩ | ⟨hf, hl, hl', -⟩ := exceededLimit?_eq_some h
  · exact ⟨by omega, by omega, by omega, iff_of_true (by omega) hf, fun _ => .inl hf, by simp [hf]⟩
  · exact ⟨by omega, by omega, by omega, iff_of_false (by omega) (by simp [hf]),
      fun _ => .inr hf, fun _ => by omega⟩
  · exact ⟨by omega, by omega, by omega, iff_of_false (by omega) (by simp [hf]),
      fun _ => by omega, by simp [hf]⟩

/-- Only to begin a part can stop the machine. -/
theorem step_eq_stopped {w : List Task} {p q : Progress} {f : Fault}
    (h : step (.running w p) = .stopped f q) :
    ∃ x w', w = .parse x :: w' ∧ x.form.begin w' p = .stopped f q := by
  cases w with
  | nil => cases h
  | cons t w =>
    cases t with
    | parse x => exact ⟨x, w, rfl, h⟩
    | leave index k => cases h

theorem Bounded.stop {w : List Task} {p q : Progress} {f : Fault} (h : Bounded w p)
    (hs : step (.running w p) = .stopped f q) : Stop f q := by
  obtain ⟨x, w, rfl, hs⟩ := step_eq_stopped hs
  obtain ⟨hdepth, hcount, hd, hn⟩ := h
  obtain ⟨hf, rfl | ⟨tag, length, hl, rfl⟩⟩ | ⟨tag, params, -, hl, rfl⟩ := Form.begin_eq_stopped hs
  · exact .within hcount hd hn hf
  · obtain ⟨hd, hn, -⟩ := exceededLimit?_eq_none_iff.mp hl
    exact .within (by simp [hcount]) hd hn hf
  · exact .exceeded hcount hd hn hl

/-- What holds in every state of a run. -/
def State.Sound : State → Prop
  | running w p => Bounded w p
  | stopped f q => Stop f q

theorem sound_step {s : State} (h : s.Sound) : (step s).Sound := by
  cases s with
  | stopped f q => exact h
  | running w p =>
    cases hs : step (.running w p) with
    | running w' q => exact h.next hs
    | stopped f q => exact h.stop hs

theorem stateAt_succ (v : Value) (n : Nat) : stateAt v (n + 1) = step (stateAt v n) :=
  Function.iterate_succ_apply' step n _

theorem sound_stateAt (v : Value) (n : Nat) : (stateAt v n).Sound := by
  induction n with
  | zero => exact bounded_start v
  | succ n ih =>
    rw [stateAt_succ]
    exact sound_step ih

/-- A run that has stopped did so when a part was begun. -/
theorem stops_at {v : Value} {n : Nat} {f : Fault} {q : Progress} (h : stateAt v n = .stopped f q) :
    ∃ m x w p, stateAt v m = .running (.parse x :: w) p ∧ x.form.begin w p = .stopped f q := by
  induction n with
  | zero => cases h
  | succ n ih =>
    rw [stateAt_succ] at h
    cases hs : stateAt v n with
    | running w p =>
      rw [hs] at h
      obtain ⟨x, w, rfl, hx⟩ := step_eq_stopped h
      exact ⟨n, x, w, p, hs, hx⟩
    | stopped g r =>
      rw [hs] at h
      exact ih (hs.trans h)

/-- A tuple that exceeds a limit ends the run as soon as it has been entered. -/
theorem exceeds_at {v : Value} {f : Failure} (h : parse v = .error f)
    (hf : f.fault.cause ∈ tupleLimits) :
    ∃ n x w p tag params, stateAt v n = .running (.parse x :: w) p ∧
      x.value = headed tag params ∧
      stateAt v (n + 1) = .stopped f.fault f.progress ∧
      exceededLimit? tag (params.length + 1) f.progress = some f.fault ∧
      f.progress.nodes.toList = p.nodes.toList ++ [⟨f.progress.depth, tag, none⟩] := by
  obtain ⟨m, hm⟩ := stateAt_eq_lastState v
  have hend : stateAt v m = .stopped f.fault f.progress := by
    rw [hm m (Nat.le_refl m), h, lastState]
  obtain ⟨n, x, w, p, hn, hx⟩ := stops_at hend
  have hnext : stateAt v (n + 1) = .stopped f.fault f.progress := by
    rw [stateAt_succ, hn]
    exact hx
  obtain ⟨hother, -⟩ | ⟨tag, params, hvalue, hl, hq⟩ := Form.begin_eq_stopped hx
  · exact absurd hf hother
  · rw [hq] at hl
    refine ⟨n, x, w, p, tag, params, hn, hvalue, hnext, hl, ?_⟩
    rw [← hq]
    simp

/-- Each limit is exceeded by one at the most. -/
structure Progress.Limited (p : Progress) : Prop where
  depth_le : p.depth ≤ Limits.depth + 1
  nodeCount_le : p.nodeCount ≤ Limits.nodes + 1
  size_le : p.nodes.size ≤ Limits.nodes + 1

/-- The progress with which a parse ends. -/
def finalProgress : Except Failure Parsed → Progress
  | .ok p => p.progress
  | .error f => f.progress

/-- The cause of the fault with which a parse ends, if it does. -/
def finalCause? : Except Failure Parsed → Option Cause
  | .ok _ => none
  | .error f => some f.fault.cause

theorem State.Sound.limited {s : State} (h : s.Sound) : s.progress.Limited := by
  cases s with
  | running w p =>
    obtain ⟨-, hcount, hd, hn⟩ := h
    exact ⟨Nat.le_succ_of_le hd, Nat.le_succ_of_le hn, hcount ▸ Nat.le_succ_of_le hn⟩
  | stopped f q => exact ⟨h.depth_le, h.nodeCount_le, h.nodeCount_eq ▸ h.nodeCount_le⟩

theorem State.Sound.calls_le {s : State} (h : s.Sound) : s.calls ≤ Limits.depth + 1 := by
  cases s with
  | running w p =>
    have hopen : openTuples w ≤ Limits.depth := h.depth_eq ▸ h.depth_le
    cases w with
    | nil => exact Nat.zero_le _
    | cons t w =>
      cases t with
      | parse x => exact Nat.succ_le_succ hopen
      | leave index k => exact Nat.le_succ_of_le hopen
  | stopped f q => exact Nat.zero_le _

theorem sound_lastState (v : Value) : (lastState (parse v)).Sound := by
  obtain ⟨n, hn⟩ := stateAt_eq_lastState v
  exact hn n (Nat.le_refl n) ▸ sound_stateAt v n

/-- However deep or wide the value is, at no time does the parse exceed a limit by more than one, and
it ends then: the tuple that exceeds it is the last to be entered, and its parameters are not
parsed. -/
theorem parse_limits (v : Value) :
    (∃ n, ∀ m, n ≤ m → stateAt v m = lastState (parse v)) ∧
      (∀ x p calls, Called v x p calls →
        ∃ n w, stateAt v n = .running (.parse x :: w) p ∧ (stateAt v n).calls = calls) ∧
      (∀ n, (stateAt v n).progress.Limited ∧ (stateAt v n).calls ≤ Limits.depth + 1) ∧
      (finalProgress (parse v)).Limited ∧
      ((finalProgress (parse v)).depth = Limits.depth + 1 ↔
        finalCause? (parse v) = some .tupleDepthLimitExceeded) ∧
      ((finalProgress (parse v)).nodeCount = Limits.nodes + 1 →
        finalCause? (parse v) = some .tupleDepthLimitExceeded ∨
          finalCause? (parse v) = some .tupleNodeCountLimitExceeded) ∧
      (finalCause? (parse v) = some .tupleNodeCountLimitExceeded →
        (finalProgress (parse v)).nodeCount = Limits.nodes + 1) ∧
      ∀ f, parse v = .error f → f.fault.cause ∈ tupleLimits →
        ∃ n x w p tag params, stateAt v n = .running (.parse x :: w) p ∧
          x.value = headed tag params ∧
          stateAt v (n + 1) = .stopped f.fault f.progress ∧
          exceededLimit? tag (params.length + 1) f.progress = some f.fault ∧
          f.progress.nodes.toList = p.nodes.toList ++ [⟨f.progress.depth, tag, none⟩] := by
  refine ⟨stateAt_eq_lastState v, fun x p calls hcall => hcall.stateAt, fun n =>
    ⟨(sound_stateAt v n).limited, (sound_stateAt v n).calls_le⟩, ?_⟩
  have hlast : (lastState (parse v)).Sound := sound_lastState v
  cases h : parse v with
  | ok p =>
    rw [h] at hlast
    have hlimited : p.progress.Limited := hlast.limited
    obtain ⟨-, -, hd, hn⟩ : Bounded [] p.progress := hlast
    simp only [finalProgress, finalCause?, reduceCtorEq, iff_false, false_or, false_implies,
      implies_true, and_true, imp_false]
    exact ⟨hlimited, by omega, by omega⟩
  | error f =>
    rw [h] at hlast
    have hstop : Stop f.fault f.progress := hlast
    simp only [finalProgress, finalCause?, Option.some.injEq]
    refine ⟨hlast.limited, hstop.depth_iff, hstop.cause_of_nodeCount, hstop.nodeCount_of_cause, ?_⟩
    rintro g ⟨⟩ hg
    exact exceeds_at h hg

/-- A tuple that is too long is entered, and what is in it does not matter. -/
theorem parse_long (tag : String) {params : List Value} (h : Limits.length ≤ params.length) :
    ∃ f, parse (headed tag params) = .error f ∧ f.fault.cause = .tupleLengthLimitExceeded ∧
      f.progress.nodes = #[⟨1, tag, none⟩] := by
  have hlimit : exceededLimit? tag (params.length + 1) (Progress.start.enter.add tag) =
      some ⟨.tupleLengthLimitExceeded,
        s!"{tag} length {params.length + 1} exceeds {Limits.length}"⟩ := by
    have hd : ¬Limits.depth < (Progress.start.enter.add tag).depth := by
      rw [Progress.add_depth]
      decide
    have hn : ¬Limits.nodes < (Progress.start.enter.add tag).nodeCount := by
      rw [Progress.add_nodeCount]
      decide
    rw [exceededLimit?, if_neg hd, if_neg hn, if_pos (Nat.lt_succ_of_le h)]
  have hfails := (fails_tuple_part (form_criterion rfl)).mpr (.inl ⟨hlimit, rfl⟩)
  exact ⟨⟨_, _⟩, parse_eq_error.mpr hfails, rfl, rfl⟩

theorem parse_limits_long :
    ∃ f n x w p, parse (headed "And" (.replicate Limits.length .null)) = .error f ∧
      f.fault.cause = .tupleLengthLimitExceeded ∧ f.progress.nodes = #[⟨1, "And", none⟩] ∧
      stateAt (headed "And" (.replicate Limits.length .null)) n =
        .running (.parse x :: w) p ∧
      stateAt (headed "And" (.replicate Limits.length .null)) (n + 1) =
        .stopped f.fault f.progress := by
  obtain ⟨f, hparse, hcause, hnodes⟩ := parse_long "And" List.length_replicate.ge
  obtain ⟨-, -, -, -, -, -, -, hstop⟩ := parse_limits (headed "And" (.replicate Limits.length .null))
  have hlimit : f.fault.cause ∈ tupleLimits := by
    rw [hcause]
    decide
  obtain ⟨n, x, w, p, tag, params, hn, -, hnext, -⟩ := hstop f hparse hlimit
  exact ⟨f, n, x, w, p, hparse, hcause, hnodes, hn, hnext⟩

end ScanCriteria.Wire
