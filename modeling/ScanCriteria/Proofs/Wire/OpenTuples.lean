import Mathlib.Data.List.Chain
import ScanCriteria.Proofs.Wire.Steps
import ScanCriteria.Proofs.Wire.Trail

/-!
# Open tuples

A parse goes down into tuples and through their parts from left to right; `Descends` says which
parts it comes to, and by which way. It fails at a part that is refused before any part within it is
begun. The tuples on the way to that part, and the part itself if it is a tuple, have been entered
and not yet left, and theirs are the only entries of the log without a kind; all other tuples that
have been entered have been left.
-/
namespace ScanCriteria.Wire
open Json

/-- The entries of open tuples, the outermost at depth `d`. -/
def openEntries (d : Nat) : List String → List ParsedNode
  | [] => []
  | tag :: tags => ⟨d, tag, none⟩ :: openEntries (d + 1) tags

theorem map_tag_openEntries (d : Nat) (tags : List String) :
    (openEntries d tags).map (·.tag) = tags := by
  induction tags generalizing d with
  | nil => rfl
  | cons tag tags ih => rw [openEntries, List.map_cons, ih]

theorem length_openEntries (d : Nat) (tags : List String) :
    (openEntries d tags).length = tags.length := by
  rw [← List.length_map (·.tag), map_tag_openEntries]

theorem depth_of_openEntries {d i : Nat} {tags : List String} {n : ParsedNode}
    (h : (openEntries d tags)[i]? = some n) : n.depth = d + i := by
  induction tags generalizing d i with
  | nil => cases h
  | cons tag tags ih =>
    cases i with
    | zero =>
      obtain rfl := Option.some.inj h
      rfl
    | succ i =>
      rw [ih h]
      omega

/-- The log of what has been entered from depth `d` on while the tuples `tags` are open. -/
structure LogShape (d : Nat) (tags : List String) (es : List ParsedNode) : Prop where
  unresolved : es.filter (·.resolved.isNone) = openEntries d tags
  /-- What is entered after an open tuple is within it. -/
  within : es.Pairwise fun m n => m.resolved = none → m.depth < n.depth
  depth_le : ∀ n ∈ es, d ≤ n.depth
  head_depth : ∀ n ∈ es.head?, n.depth = d
  /-- No tuple is more than one deeper than the tuple before it. -/
  step : es.IsChain fun m n => n.depth ≤ m.depth + 1

namespace LogShape

variable {d : Nat} {tag : String} {tags : List String} {es fs : List ParsedNode}

theorem nil : LogShape d [] [] where
  unresolved := rfl
  within := .nil
  depth_le := nofun
  head_depth := nofun
  step := .nil

theorem resolved_of_closed (h : LogShape d [] es) : ∀ n ∈ es, n.resolved ≠ none := by
  intro n hn hnone
  have hmem : n ∈ es.filter (·.resolved.isNone) := List.mem_filter.mpr ⟨hn, by simp [hnone]⟩
  rw [h.unresolved] at hmem
  cases hmem

theorem append (h : LogShape d [] es) (h' : LogShape d tags fs) : LogShape d tags (es ++ fs) where
  unresolved := by rw [List.filter_append, h.unresolved, h'.unresolved, openEntries, List.nil_append]
  within := by
    apply List.pairwise_append.mpr ⟨h.within, h'.within, ?_⟩
    intro m hm n _ hnone
    exact absurd hnone (h.resolved_of_closed m hm)
  depth_le := List.forall_mem_append.mpr ⟨h.depth_le, h'.depth_le⟩
  head_depth := by
    cases es with
    | nil => exact h'.head_depth
    | cons n es => exact h.head_depth
  step := by
    apply List.isChain_append.mpr ⟨h.step, h'.step, ?_⟩
    intro m hm n hn
    have hle : d ≤ m.depth := h.depth_le m (List.mem_of_getLast? hm)
    have hd : n.depth = d := h'.head_depth n hn
    omega

/-- A tuple is logged before what is within it. -/
theorem cons {n : ParsedNode} {tags' : List String} (h : LogShape (d + 1) tags es) (hd : n.depth = d)
    (hu : [n].filter (·.resolved.isNone) ++ openEntries (d + 1) tags = openEntries d tags') :
    LogShape d tags' (n :: es) where
  unresolved := by rw [← List.singleton_append, List.filter_append, h.unresolved, hu]
  within := by
    apply List.pairwise_cons.mpr ⟨?_, h.within⟩
    intro m hm _
    have hle := h.depth_le m hm
    omega
  depth_le := by
    refine List.forall_mem_cons.mpr ⟨hd.ge, fun m hm => ?_⟩
    have hle := h.depth_le m hm
    omega
  head_depth := by
    rintro m ⟨⟩
    exact hd
  step := by
    apply List.isChain_cons.mpr ⟨?_, h.step⟩
    intro m hm
    have hm : m.depth = d + 1 := h.head_depth m hm
    omega

theorem closed (h : LogShape (d + 1) [] es) (tag : String) (k : Kind) :
    LogShape d [] (⟨d, tag, some k⟩ :: es) := h.cons rfl rfl

theorem opened (h : LogShape (d + 1) tags es) (tag : String) :
    LogShape d (tag :: tags) (⟨d, tag, none⟩ :: es) := h.cons rfl rfl

end LogShape

/-- From `p` to `q` tuples have been entered, and of these `tags` are open. -/
structure Opens (p q : Progress) (tags : List String) : Prop where
  depth_eq : q.depth = p.depth + tags.length
  log : ∃ es, Appends p q es ∧ LogShape (p.depth + 1) tags es

namespace Opens

variable {p q r : Progress} {tag : String} {tags : List String}

theorem refl (p : Progress) : Opens p p [] := ⟨rfl, [], .refl p, .nil⟩

theorem trans (h : Opens p q []) (h' : Opens q r tags) : Opens p r tags where
  depth_eq := by rw [h'.depth_eq, h.depth_eq, List.length_nil, Nat.add_zero]
  log := by
    obtain ⟨es, hes, hshape⟩ := h.log
    obtain ⟨fs, hfs, hshape'⟩ := h'.log
    rw [h.depth_eq] at hshape'
    exact ⟨es ++ fs, hes.trans hfs, hshape.append hshape'⟩

/-- The tuple is still open. -/
theorem enter (h : Opens (p.enter.add tag) q tags) : Opens p q (tag :: tags) where
  depth_eq := by
    rw [h.depth_eq, List.length_cons, Progress.add_depth, Progress.enter_depth]
    omega
  log := by
    obtain ⟨es, hes, hshape⟩ := h.log
    exact ⟨_, (Appends.enter p tag).trans hes, hshape.opened tag⟩

/-- The tuple has been left. -/
theorem exit (h : Opens (p.enter.add tag) q []) (k : Kind) :
    Opens p (q.exit ((p.enter.add tag).nodes.size - 1) k) [] where
  depth_eq := by
    rw [Progress.exit_depth, h.depth_eq, Progress.add_depth, Progress.enter_depth]
    rfl
  log := by
    obtain ⟨es, hes, hshape⟩ := h.log
    exact ⟨_, hes.exit k, hshape.closed tag k⟩

end Opens

/-- A part that is parsed leaves all of its tuples. -/
theorem kept_opens : Kept fun p q => Opens p q [] where
  refl := .refl
  trans := .trans
  tuple _ h := h.exit _

/-- The limits let a tuple be entered. -/
def Admitted (tag : String) (params : List Value) (p : Progress) : Prop :=
  exceededLimit? tag (params.length + 1) (p.enter.add tag) = none

/-- A way into a value: the tag of each tuple gone into, with the place among its parameters at
which it goes on. -/
abbrev Way := List (String × Nat)

/-- From `p` on, the parse of a part comes by the way to a part within it, with progress `q`. The
tuples on the way have been entered within the limits, with a number of parts that they may have,
and all parts before those on the way have been parsed. -/
inductive Descends : Part → Progress → Way → Part → Progress → Prop
  | here (x : Part) (p : Progress) : Descends x p [] x p
  | within {x y z : Part} {p q r : Progress} {tag : String} {params : List Value} {b : Body}
      {ys zs : List Part} {way : Way} :
      x.form = .tuple tag params (.ok b) → Admitted tag params p →
      b.parts = ys ++ y :: zs → Runs (parseAll ys) (p.enter.add tag) () q →
      Descends y q way z r → Descends x p ((tag, ys.length) :: way) z r

/-- A part fails before any part within it is begun, and opens the tuples `tags` then: none, or
itself. -/
inductive FailsItself (x : Part) (p : Progress) (f : Fault) : Progress → List String → Prop
  | refused : x.form = .refused f → FailsItself x p f p []
  | limit {tag : String} {params : List Value} {body : Except Fault Body} :
      x.form = .tuple tag params body →
      exceededLimit? tag (params.length + 1) (p.enter.add tag) = some f →
      FailsItself x p f (p.enter.add tag) [tag]
  | body {tag : String} {params : List Value} :
      x.form = .tuple tag params (.error f) → Admitted tag params p →
      FailsItself x p f (p.enter.add tag) [tag]

/-- At the end of the way into the one value stands the other. -/
inductive StandsAt : Value → Way → Value → Prop
  | here (v : Value) : StandsAt v [] v
  | within {tag : String} {params : List Value} {k : Nat} {v w : Value} {way : Way} :
      params[k]? = some v → StandsAt v way w → StandsAt (headed tag params) ((tag, k) :: way) w

/-- The tag of a tuple that the value itself is. -/
def ownTags : Value → List String
  | .array (.string tag :: _) => [tag]
  | _ => []

theorem Part.not_headed {x : Part} {f : Fault} (h : x.form = .refused f) (tag : String)
    (params : List Value) : x.value ≠ headed tag params := by
  intro hv
  cases x with
  | criterion v =>
    obtain rfl : v = headed tag params := hv
    cases h
  | operand v =>
    obtain rfl : v = headed tag params := hv
    cases h

section Descent

variable {x y : Part} {p q r : Progress} {f : Fault} {way : Way} {tags : List String}

theorem FailsItself.fails (h : FailsItself x p f q tags) : Fails x.parse p f q := by
  cases h with
  | refused hx => exact (fails_refused hx).mpr ⟨rfl, rfl⟩
  | limit hx hl => exact (fails_tuple_part hx).mpr (.inl ⟨hl, rfl⟩)
  | body hx hl => exact (fails_tuple_part hx).mpr (.inr ⟨hl, .inl ⟨rfl, rfl⟩⟩)

theorem FailsItself.opens (h : FailsItself x p f q tags) : Opens p q tags := by
  cases h with
  | refused hx => exact .refl p
  | limit hx hl => exact (Opens.refl _).enter
  | body hx hl => exact (Opens.refl _).enter

theorem fails_parseAll_of_runs {ys : List Part} (hys : Runs (parseAll ys) p () q)
    (hf : Fails y.parse q f r) (zs : List Part) : Fails (parseAll (ys ++ y :: zs)) p f r :=
  fails_parseAll_append.mpr (.inr ⟨q, hys, fails_parseAll_cons.mpr (.inl hf)⟩)

/-- A failure at the end of the way is the failure of the whole. -/
theorem Descends.fails (h : Descends x p way y q) (hf : Fails y.parse q f r) :
    Fails x.parse p f r := by
  induction h with
  | here x p => exact hf
  | within hx hl hparts hys _ ih =>
    have hall := fails_parseAll_of_runs hys (ih hf)
    exact (fails_tuple_part hx).mpr (.inr ⟨hl, .inr ⟨_, rfl, hparts ▸ hall _⟩⟩)

/-- The tuples on the way are open, and no others but those that are opened at its end. -/
theorem Descends.opens (h : Descends x p way y q) (hr : Opens q r tags) :
    Opens p r (way.map Prod.fst ++ tags) := by
  induction h with
  | here x p => exact hr
  | within hx hl hparts hys _ ih =>
    exact ((kept_opens.runs_all hys).trans (ih hr)).enter

/-- The way of a parse is a way into the value that it parses. -/
theorem Descends.standsAt (h : Descends x p way y q) : StandsAt x.value way y.value := by
  induction h with
  | here x p => exact .here x.value
  | @within x y z p q r tag params b ys zs way hx hl hparts hys hd ih =>
    have hvalues : b.parts.map Part.value = params :=
      (Part.parts_values hx).resolve_right (by simp [hparts])
    rw [Part.value_eq hx]
    refine .within ?_ ih
    rw [← hvalues, hparts, List.map_append, List.getElem?_append_right (by simp)]
    simp

/-- A part that fails itself opens the tuple that it is, and if it is none, then none. -/
theorem FailsItself.tags_eq (h : FailsItself x p f q tags) : tags = ownTags x.value := by
  cases h with
  | refused hx => rw [ownTags.eq_2 _ (Part.not_headed hx)]
  | limit hx _ => rw [Part.value_eq hx, headed, ownTags]
  | body hx _ => rw [Part.value_eq hx, headed, ownTags]

/-- If anything has been entered then the part itself was first, and it is still open. -/
theorem Descends.entered (h : Descends x p way y q) (hy : FailsItself y q f r tags) :
    r = p ∨ ∃ tag rest, Opens (p.enter.add tag) r rest := by
  cases h with
  | here =>
    cases hy with
    | refused => exact .inl rfl
    | limit => exact .inr ⟨_, [], .refl _⟩
    | body => exact .inr ⟨_, [], .refl _⟩
  | within hx hl hparts hys hd =>
    exact .inr ⟨_, _, (kept_opens.runs_all hys).trans (hd.opens hy.opens)⟩

/-- A failure comes from a part that fails itself. -/
theorem exists_descends (x : Part) {f : Fault} {q : Progress} : ∀ p, Fails x.parse p f q →
    ∃ way y r tags, Descends x p way y r ∧ FailsItself y r f q tags := by
  induction x using Part.induction with
  | h x ih =>
    intro p h
    cases hx : x.form with
    | scalar => exact absurd h (not_fails_scalar hx)
    | refused g =>
      obtain ⟨rfl, rfl⟩ := (fails_refused hx).mp h
      exact ⟨[], x, p, [], .here x p, .refused hx⟩
    | tuple tag params body =>
      obtain ⟨hl, rfl⟩ | ⟨hl, ⟨rfl, rfl⟩ | ⟨b, rfl, hf⟩⟩ := (fails_tuple_part hx).mp h
      · exact ⟨[], x, p, [tag], .here x p, .limit hx hl⟩
      · exact ⟨[], x, p, [tag], .here x p, .body hx hl⟩
      · obtain ⟨ys, y, zs, r, hparts, hys, hf⟩ := exists_of_fails_parseAll hf
        obtain ⟨way, z, s, tags, hd, hz⟩ := ih tag params b hx y (by simp [hparts]) r hf
        exact ⟨_, z, s, tags, .within hx hl hparts hys hd, hz⟩

end Descent

theorem unresolved_eq_openEntries {q : Progress} {tags : List String} (h : Opens .start q tags) :
    q.unresolved = openEntries 1 tags := by
  obtain ⟨-, es, happ, hshape⟩ := h
  have hnodes : q.nodes.toList = es := happ.nodes_eq
  rw [Progress.unresolved, hnodes]
  exact hshape.unresolved

theorem unresolved_of_opens {q : Progress} {tags : List String} (h : Opens .start q tags) :
    q.unresolved.map (·.tag) = tags := by
  rw [unresolved_eq_openEntries h, map_tag_openEntries]

/-- All that has been entered after the first tuple is within it. -/
theorem two_le_depth {p : Progress} {tag : String} {tags : List String}
    (h : Opens (Progress.start.enter.add tag) p tags) {i : Nat} {n : ParsedNode}
    (hn : p.nodes.toList[i + 1]? = some n) : 2 ≤ n.depth := by
  obtain ⟨es, happ, hshape⟩ := h.log
  have hnodes : p.nodes.toList = ⟨1, tag, none⟩ :: es := happ.nodes_eq
  rw [hnodes, List.getElem?_cons_succ] at hn
  exact hshape.depth_le n (List.mem_of_getElem? hn)

/-- After a failure the entries without a kind are those of the open tuples, at depths one, two and
so on: the tuples on the way to the part that fails itself, and this part if it is a tuple. -/
theorem parse_open_tuples {v : Value} {f : Failure} (h : parse v = .error f) :
    f.progress.nodeCount = f.progress.nodes.size ∧
      f.progress.depth = f.progress.unresolved.length ∧
      (∀ i n, f.progress.unresolved[i]? = some n → n.depth = i + 1) ∧
      (∃ way y q, StandsAt v way y.value ∧ Descends (.criterion v) .start way y q ∧
        FailsItself y q f.fault f.progress (ownTags y.value) ∧
        f.progress.unresolved.map (·.tag) = way.map Prod.fst ++ ownTags y.value) ∧
      (∀ n ∈ f.progress.nodes, n ∉ f.progress.unresolved → n.resolved.isSome = true) ∧
      f.progress.nodes.toList.Pairwise (fun m n => m.resolved = none → m.depth < n.depth) ∧
      (∀ n, f.progress.nodes[0]? = some n → n.depth = 1) ∧
      ∀ i m n, f.progress.nodes[i]? = some m → f.progress.nodes[i + 1]? = some n →
        2 ≤ n.depth ∧ n.depth ≤ m.depth + 1 := by
  obtain ⟨way, y, q, tags, hd, hy⟩ := exists_descends (.criterion v) .start (parse_eq_error.mp h)
  have hopens : Opens .start f.progress (way.map Prod.fst ++ tags) := hd.opens hy.opens
  have hopen := unresolved_eq_openEntries hopens
  obtain ⟨hdepth, es, happ, hshape⟩ := hopens
  have hnodes : f.progress.nodes.toList = es := happ.nodes_eq
  refine ⟨?_, ?_, ?_, ?_, ?_, hnodes ▸ hshape.within, ?_, ?_⟩
  · rw [happ.nodeCount_eq, ← Array.length_toList, hnodes]
    exact Nat.zero_add _
  · rw [hdepth, hopen, length_openEntries]
    exact Nat.zero_add _
  · intro i n hn
    rw [hopen] at hn
    rw [depth_of_openEntries hn, Nat.add_comm]
  · obtain rfl := hy.tags_eq
    exact ⟨way, y, q, hd.standsAt, hd, hy, by rw [hopen, map_tag_openEntries]⟩
  · intro n hn hresolved
    rw [Option.isSome_iff_ne_none]
    intro hnone
    exact hresolved (List.mem_filter.mpr ⟨Array.mem_toList_iff.mpr hn, by simp [hnone]⟩)
  · intro n hn
    rw [← Array.getElem?_toList, hnodes, ← List.head?_eq_getElem?] at hn
    exact hshape.head_depth n hn
  · intro i m n hm hn
    rw [← Array.getElem?_toList] at hm hn
    constructor
    · obtain hstart | ⟨tag, rest, hfirst⟩ := hd.entered hy
      · rw [hstart] at hn
        cases hn
      · exact two_le_depth hfirst hn
    · obtain ⟨hi, rfl⟩ := List.getElem?_eq_some_iff.mp hn
      obtain ⟨_, rfl⟩ := List.getElem?_eq_some_iff.mp hm
      exact (hnodes ▸ hshape.step).getElem i hi

/-- The second operand of the second operand has the tag of nothing. -/
def unknownWithinOr : Value :=
  headed "And" [headed "All" [], headed "Or" [headed "None" [], headed "Tomorrow" []]]

theorem parse_open_tuples_unknownWithinOr :
    ∃ f, parse unknownWithinOr = .error f ∧ f.fault.cause = .unknownBooleanTupleNodeType ∧
      f.progress.depth = 3 ∧ f.progress.unresolved.map (·.tag) = ["And", "Or", "Tomorrow"] ∧
      ∃ way y q, StandsAt unknownWithinOr way y.value ∧
        FailsItself y q f.fault f.progress (ownTags y.value) ∧
        way.map Prod.fst ++ ownTags y.value = ["And", "Or", "Tomorrow"] := by
  have hstop : stateAt unknownWithinOr 8 = .stopped ⟨.unknownBooleanTupleNodeType, "Tomorrow"⟩
      ⟨3, 5, #[
        ⟨1, "And", none⟩,
        ⟨2, "All", some .everything⟩,
        ⟨2, "Or", none⟩,
        ⟨3, "None", some .nothing⟩,
        ⟨3, "Tomorrow", none⟩]⟩ := rfl
  have hparse := parse_eq_error_of_stateAt hstop
  obtain ⟨-, hdepth, -, ⟨way, y, q, hstands, -, hfails, htags⟩, -⟩ := parse_open_tuples hparse
  exact ⟨_, hparse, rfl, hdepth, rfl, way, y, q, hstands, hfails, htags.symm⟩

end ScanCriteria.Wire
