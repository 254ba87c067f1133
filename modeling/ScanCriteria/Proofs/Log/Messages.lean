import Mathlib.Data.Nat.Find
import ScanCriteria.Log.Service

/-!
# Messages that reach a logger

A message is clamped when its event is made and once more by the service. What is cut off are whole
characters: the cut is where a search backward from the limit first meets the end of a character, at
most three bytes before it. The second clamp can cut into the dots of the first, so that up to five
of them follow what is left of a long message.
-/
namespace ScanCriteria

theorem utf8ByteSize_ofList_cons (c : Char) (cs : List Char) :
    (String.ofList (c :: cs)).utf8ByteSize = c.utf8Size + (String.ofList cs).utf8ByteSize := by
  rw [String.ofList_cons, String.utf8ByteSize_append, String.utf8ByteSize_singleton]

theorem utf8ByteSize_ofList_append (cs ds : List Char) :
    (String.ofList (cs ++ ds)).utf8ByteSize =
      (String.ofList cs).utf8ByteSize + (String.ofList ds).utf8ByteSize := by
  rw [String.ofList_append, String.utf8ByteSize_append]

theorem utf8ByteSize_ofList_replicate (n : Nat) (c : Char) :
    (String.ofList (List.replicate n c)).utf8ByteSize = n * c.utf8Size := by
  induction n with
  | zero => simp
  | succ n ih =>
    rw [List.replicate_succ, utf8ByteSize_ofList_cons, ih, Nat.succ_mul, Nat.add_comm]

theorem utf8ByteSize_le_of_prefix {cs ds : List Char} (h : cs <+: ds) :
    (String.ofList cs).utf8ByteSize ≤ (String.ofList ds).utf8ByteSize := by
  obtain ⟨es, rfl⟩ := h
  rw [utf8ByteSize_ofList_append]
  exact Nat.le_add_right _ _

theorem takeBytes_prefix (room : Nat) (cs : List Char) : takeBytes room cs <+: cs := by
  fun_induction takeBytes room cs with
  | case1 => exact List.nil_prefix
  | case2 room c cs hfits ih => exact (List.prefix_cons_inj c).mpr ih
  | case3 => exact List.nil_prefix

theorem utf8ByteSize_takeBytes_le (room : Nat) (cs : List Char) :
    (String.ofList (takeBytes room cs)).utf8ByteSize ≤ room := by
  fun_induction takeBytes room cs with
  | case1 => simp
  | case2 room c cs hfits ih =>
    rw [utf8ByteSize_ofList_cons]
    omega
  | case3 => simp

/-- A character has four bytes at most, so no four bytes stay free unless all characters fit. -/
theorem lt_utf8ByteSize_takeBytes {room : Nat} {cs : List Char}
    (h : room < (String.ofList cs).utf8ByteSize) :
    room < (String.ofList (takeBytes room cs)).utf8ByteSize + 4 := by
  fun_induction takeBytes room cs with
  | case1 => simp at h
  | case2 room c cs hfits ih =>
    rw [utf8ByteSize_ofList_cons] at h ⊢
    have hrest := ih (by omega)
    omega
  | case3 room c cs hfits =>
    have hfour := c.utf8Size_le_four
    omega

/-- Characters that fit are taken, with what fits after them. -/
theorem takeBytes_append {room : Nat} {cs : List Char}
    (h : (String.ofList cs).utf8ByteSize ≤ room) (ds : List Char) :
    takeBytes room (cs ++ ds) = cs ++ takeBytes (room - (String.ofList cs).utf8ByteSize) ds := by
  induction cs generalizing room with
  | nil => simp
  | cons c cs ih =>
    rw [utf8ByteSize_ofList_cons] at h
    have hfits : c.utf8Size ≤ room := by omega
    rw [List.cons_append, takeBytes, if_pos hfits, ih (by omega), utf8ByteSize_ofList_cons,
      Nat.sub_sub, List.cons_append]

/-- A beginning that fits is taken whole. -/
theorem prefix_takeBytes {room : Nat} {cs ds : List Char} (h : cs <+: ds)
    (hfits : (String.ofList cs).utf8ByteSize ≤ room) : cs <+: takeBytes room ds := by
  obtain ⟨es, rfl⟩ := h
  rw [takeBytes_append hfits]
  exact List.prefix_append _ _

theorem takeBytes_replicate {c : Char} (hc : c.utf8Size = 1) {room n : Nat} (h : room ≤ n) :
    takeBytes room (List.replicate n c) = List.replicate room c := by
  induction n generalizing room with
  | zero =>
    obtain rfl := Nat.le_zero.mp h
    rfl
  | succ n ih =>
    rw [List.replicate_succ, takeBytes, hc]
    cases room with
    | zero => rfl
    | succ room =>
      rw [if_pos (Nat.le_add_left 1 room), Nat.add_sub_cancel, ih (Nat.le_of_succ_le_succ h),
        List.replicate_succ]

/-- Of the beginnings of `s` with at most `most` bytes `p` is the longest. -/
structure LongestBeginning (most : Nat) (p s : String) : Prop where
  beginning : p.toList <+: s.toList
  fits : p.utf8ByteSize ≤ most
  longest : ∀ q : String, q.toList <+: s.toList → q.utf8ByteSize ≤ most → q.toList <+: p.toList

theorem longestBeginning_takeBytes (most : Nat) (s : String) :
    LongestBeginning most (String.ofList (takeBytes most s.toList)) s where
  beginning := by
    rw [String.toList_ofList]
    exact takeBytes_prefix _ _
  fits := utf8ByteSize_takeBytes_le _ _
  longest q hq hfits := by
    rw [String.toList_ofList]
    exact prefix_takeBytes hq (by rwa [String.ofList_toList])

/-- Where a search backward from `most` bytes first meets the end of a character. -/
def boundaryBefore (most : Nat) (s : String) : Nat :=
  Nat.findGreatest (fun n => (⟨n⟩ : String.Pos.Raw).IsValid s) most

namespace LongestBeginning

variable {most : Nat} {p q s : String}

theorem unique (hp : LongestBeginning most p s) (hq : LongestBeginning most q s) : p = q := by
  have hpq := hq.longest p hp.beginning hp.fits
  have hqp := hp.longest q hq.beginning hq.fits
  exact String.toList_inj.mp (hpq.eq_of_length_le hqp.length_le)

theorem eq_takeBytes (h : LongestBeginning most p s) :
    p = String.ofList (takeBytes most s.toList) := h.unique (longestBeginning_takeBytes most s)

theorem lt_utf8ByteSize (h : LongestBeginning most p s) (hs : most < s.utf8ByteSize) :
    most < p.utf8ByteSize + 4 := by
  rw [h.eq_takeBytes]
  exact lt_utf8ByteSize_takeBytes (by rwa [String.ofList_toList])

/-- The search backward ends with the beginning that is taken. -/
theorem boundaryBefore_eq (h : LongestBeginning most p s) :
    boundaryBefore most s = p.utf8ByteSize := by
  refine Nat.findGreatest_eq_iff.mpr ⟨h.fits, fun _ => ?_, fun n hn hmost hvalid => ?_⟩
  · obtain ⟨rest, hrest⟩ := h.beginning
    refine String.Pos.Raw.isValid_iff_exists_append.mpr ⟨p, String.ofList rest, ?_, rfl⟩
    rw [← String.toList_inj, String.toList_append, String.toList_ofList, hrest]
  · obtain ⟨q, t, rfl, hq⟩ := String.Pos.Raw.isValid_iff_exists_append.mp hvalid
    obtain rfl : n = q.utf8ByteSize := congrArg String.Pos.Raw.byteIdx hq
    have hqp := h.longest q (by simp) hmost
    have hle := utf8ByteSize_le_of_prefix hqp
    rw [String.ofList_toList, String.ofList_toList] at hle
    omega

end LongestBeginning

def dots (n : Nat) : String := String.ofList (List.replicate n '.')

theorem dots_append (m n : Nat) : dots m ++ dots n = dots (m + n) := by
  rw [dots, dots, dots, ← String.ofList_append, List.replicate_append_replicate]

theorem utf8ByteSize_dots (n : Nat) : (dots n).utf8ByteSize = n := by
  rw [dots, utf8ByteSize_ofList_replicate]
  exact Nat.mul_one n

section Clamp

variable {most : Nat} {p s : String}

theorem clamp_of_le (h : s.utf8ByteSize ≤ most) : clamp most s = s := if_pos h

theorem clamp_of_lt (h : most < s.utf8ByteSize) (hp : LongestBeginning most p s) :
    clamp most s = p ++ dots 3 := by
  rw [clamp, if_neg (Nat.not_le.mpr h), hp.eq_takeBytes]
  rfl

/-- Of the dots behind a beginning as many fit as there are bytes left. -/
theorem LongestBeginning.append_dots (hp : p.utf8ByteSize ≤ most) {n : Nat}
    (hn : most ≤ p.utf8ByteSize + n) :
    LongestBeginning most (p ++ dots (most - p.utf8ByteSize)) (p ++ dots n) := by
  have htake : takeBytes most (p ++ dots n).toList =
      (p ++ dots (most - p.utf8ByteSize)).toList := by
    simp only [String.toList_append, dots, String.toList_ofList]
    rw [takeBytes_append (by rwa [String.ofList_toList]), String.ofList_toList,
      takeBytes_replicate (by decide) (by omega)]
  have hlongest := longestBeginning_takeBytes most (p ++ dots n)
  rwa [htake, String.ofList_toList] at hlongest

/-- The second time there is a cut only into the dots of the first. -/
theorem clamp_clamp (h : most < s.utf8ByteSize) (hp : LongestBeginning most p s) :
    clamp most (clamp most s) =
      p ++ dots (if p.utf8ByteSize + 3 ≤ most then 3 else most - p.utf8ByteSize + 3) := by
  have hsize : (p ++ dots 3).utf8ByteSize = p.utf8ByteSize + 3 := by
    rw [String.utf8ByteSize_append, utf8ByteSize_dots]
  rw [clamp_of_lt h hp]
  split
  · next hfits => exact clamp_of_le (hsize ▸ hfits)
  · next hlong =>
    have hcut : LongestBeginning most (p ++ dots (most - p.utf8ByteSize)) (p ++ dots 3) :=
      .append_dots hp.fits (by omega)
    rw [clamp_of_lt (by omega) hcut, String.append_assoc, dots_append]

/-- The search that cuts a message stops at most three bytes before the limit. -/
theorem clamp_cut (h : most < s.utf8ByteSize) :
    most < boundaryBefore most s + 4 ∧
      ∃ p, p.toList <+: s.toList ∧ p.utf8ByteSize = boundaryBefore most s ∧
        clamp most s = p ++ dots 3 := by
  have hp := longestBeginning_takeBytes most s
  rw [hp.boundaryBefore_eq]
  exact ⟨hp.lt_utf8ByteSize h, _, hp.beginning, rfl, clamp_of_lt h hp⟩

end Clamp

/-- The events that are made for a message, with any context. -/
inductive Event.MadeFor (m : String) : Event → Prop where
  | error (timestamp : Int) (code : Code) : MadeFor m (.error timestamp code m)
  | warning (timestamp : Int) (code : Option Code) : MadeFor m (.warning timestamp code m)
  | info (timestamp : Int) : MadeFor m (.info timestamp m)
  | success (timestamp : Int) (code : Code) : MadeFor m (.success timestamp code m)
  | debug (timestamp : Int) : MadeFor m (.debug timestamp m)
  | withContext {e : Event} (key value : String) : MadeFor m e → MadeFor m (e.withContext key value)

theorem Event.MadeFor.message_eq {m : String} {e : Event} (h : e.MadeFor m) :
    e.message = clampMessage m := by
  induction h with
  | withContext key value _ ih => exact ih
  | _ => rfl

namespace Service

/-- What becomes of a service when its logger gets an event. -/
def handOver (v : Service) (e : Event) : Service × List Emission :=
  ({ v with logger := (v.logger.log e).1 }, (v.logger.log e).2)

theorem log_of_admits {v : Service} {e : Event} (h : v.admits e.level = true) :
    v.log e = v.handOver { e with message := clampMessage e.message } := by
  rw [log, if_pos h]
  rfl

end Service

/-- What is left of the message `m` when it has been clamped twice. -/
structure LeftOf (m r : String) : Prop where
  short : m.utf8ByteSize ≤ 4096 → r = m
  long : 4096 < m.utf8ByteSize → ∃ p n, LongestBeginning 4096 p m ∧ r = p ++ dots n ∧
    (p.utf8ByteSize, n) ∈ [(4096, 3), (4095, 4), (4094, 5), (4093, 3)]
  size_le : r.utf8ByteSize ≤ 4099
  validUTF8 : r.toByteArray.IsValidUTF8

theorem mem_cuts {b n : Nat} : (b, n) ∈ [(4096, 3), (4095, 4), (4094, 5), (4093, 3)] ↔
    b = 4096 ∧ n = 3 ∨ b = 4095 ∧ n = 4 ∨ b = 4094 ∧ n = 5 ∨ b = 4093 ∧ n = 3 := by
  simp

theorem clampMessage_eq (s : String) : clampMessage s = clamp 4096 s := rfl

theorem leftOf_clampMessage (m : String) : LeftOf m (clampMessage (clampMessage m)) := by
  simp only [clampMessage_eq]
  have hlong (h : 4096 < m.utf8ByteSize) : ∃ p n, LongestBeginning 4096 p m ∧
      clamp 4096 (clamp 4096 m) = p ++ dots n ∧
        (p.utf8ByteSize, n) ∈ [(4096, 3), (4095, 4), (4094, 5), (4093, 3)] := by
    have hp := longestBeginning_takeBytes 4096 m
    refine ⟨_, _, hp, clamp_clamp h hp, ?_⟩
    have hle := hp.fits
    have hlt := hp.lt_utf8ByteSize h
    rw [mem_cuts]
    split <;> omega
  have hshort (h : m.utf8ByteSize ≤ 4096) : clamp 4096 (clamp 4096 m) = m := by
    rw [clamp_of_le h, clamp_of_le h]
  refine ⟨hshort, hlong, ?_, String.isValidUTF8 _⟩
  by_cases h : m.utf8ByteSize ≤ 4096
  · rw [hshort h]
    omega
  · obtain ⟨p, n, -, heq, hmem⟩ := hlong (by omega)
    rw [heq, String.utf8ByteSize_append, utf8ByteSize_dots]
    rw [mem_cuts] at hmem
    omega

/-- A logger gets an event with what is left of its message: the whole, or its longest beginning
within the limit and three to five dots. Both clamps cut where a character ends, less than four
bytes before the limit. -/
theorem log_madeFor {m : String} {e : Event} (he : e.MadeFor m) {v : Service}
    (hv : v.admits e.level = true) :
    (∃ r, v.log e = v.handOver { e with message := r } ∧ LeftOf m r) ∧
      ∀ s ∈ [m, clampMessage m], 4096 < s.utf8ByteSize →
        4093 ≤ boundaryBefore 4096 s ∧
          ∃ p, p.toList <+: s.toList ∧ p.utf8ByteSize = boundaryBefore 4096 s ∧
            clampMessage s = p ++ dots 3 := by
  constructor
  · refine ⟨_, Service.log_of_admits hv, ?_⟩
    rw [he.message_eq]
    exact leftOf_clampMessage m
  · intro s _ hs
    obtain ⟨hlt, hcut⟩ := clamp_cut hs
    exact ⟨by omega, hcut⟩

/-- A message whose last character takes two bytes. -/
def accented (n : Nat) : String := String.ofList (List.replicate n 'x' ++ ['é'])

theorem utf8ByteSize_accented (n : Nat) : (accented n).utf8ByteSize = n + 2 := by
  have hx : 'x'.utf8Size = 1 := by decide
  have he : (String.ofList ['é']).utf8ByteSize = 2 := by decide
  rw [accented, utf8ByteSize_ofList_append, utf8ByteSize_ofList_replicate, hx, he, Nat.mul_one]

/-- One byte too many leaves out the last character. -/
theorem longestBeginning_accented (n : Nat) :
    LongestBeginning (n + 1) (String.ofList (List.replicate n 'x')) (accented n) := by
  have hx : (String.ofList (List.replicate n 'x')).utf8ByteSize = n := by
    rw [utf8ByteSize_ofList_replicate]
    exact Nat.mul_one n
  have he : takeBytes 1 ['é'] = [] := by decide
  have htake : takeBytes (n + 1) (accented n).toList = List.replicate n 'x' := by
    rw [accented, String.toList_ofList, takeBytes_append (by omega), hx, Nat.add_sub_cancel_left,
      he, List.append_nil]
  have hlongest := longestBeginning_takeBytes (n + 1) (accented n)
  rwa [htake] at hlongest

theorem log_madeFor_accented :
    (Event.info 0 (accented 4095)).MadeFor (accented 4095) ∧
      (Service.ofLogger (.memory .empty) .info).admits .info = true ∧
      ∃ p, p.utf8ByteSize = 4095 ∧
        (Service.ofLogger (.memory .empty) .info).log (.info 0 (accented 4095)) =
          (Service.ofLogger (.memory .empty) .info).handOver
            { Event.info 0 (accented 4095) with message := p ++ dots 4 } := by
  have hmade : (Event.info 0 (accented 4095)).MadeFor (accented 4095) := .info 0
  have hlong : 4096 < (accented 4095).utf8ByteSize := by
    rw [utf8ByteSize_accented]
    omega
  refine ⟨hmade, rfl, ?_⟩
  obtain ⟨⟨r, hlog, hleft⟩, -⟩ := log_madeFor hmade (v := .ofLogger (.memory .empty) .info) rfl
  obtain ⟨p, n, hp, rfl, hn⟩ := hleft.long hlong
  have hsize : p.utf8ByteSize = 4095 := by
    rw [hp.unique (longestBeginning_accented 4095), utf8ByteSize_ofList_replicate]
    rfl
  obtain rfl : n = 4 := by
    rw [mem_cuts] at hn
    omega
  exact ⟨p, hsize, hlog⟩

end ScanCriteria
