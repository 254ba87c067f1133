import ScanCriteria.Proofs.Session.Attribution
import ScanCriteria.Proofs.Session.Delivery
import ScanCriteria.Proofs.Wire.Nulls

/-!
# Losses on the way to the wire

A session warns of every number that is lost when it serializes a tree, in the order in which the
numbers stand there, and then tells that the tree has been serialized, if the preferences ask for it
and the service admits it. The wire form has a null for each of these warnings, and no others. Its
dates are texts of moments; dates whose local year is out of range are none and stand in no tree.
-/
namespace ScanCriteria
open Json Wire

theorem Deed.events_logs (es : List Event) : (es.map log).filterMap event? = es := by
  simp [List.filterMap_map, Function.comp_def, event?]

namespace Event

/-- It warns of a number that is lost. -/
def warnsOfLoss (e : Event) : Bool := e.isWarning && e.code == Code.nonFiniteLiteral

end Event

namespace Outlook

variable (o : Outlook)

theorem events_recalled : o.recalled.filterMap Deed.event? = [] := by
  rw [recalled]
  split <;> rfl

/-- The warning of a number that is lost. -/
def lossWarning (x : Double) : Event :=
  o.attach ((Event.warning o.clock (some .nonFiniteLiteral)
    "Non-finite numeric literal serialized as null").withContexts [("value", Session.lostText x)])

/-- The event that tells of a tree which has been serialized. -/
def completion (c : Criterion) : Event :=
  o.attach ((Event.success o.clock .serializeComplete "Criteria node serialized").withContexts
    [("root", c.kind.label), ("nodes", toString c.nodeCount)])

/-- Whether a tree that has been serialized is told of. -/
def tellsOfCompletion : Bool := o.current.converter.logConversions && o.admits .info

/-- The events of serializing a tree whose fields are in their roles. -/
def conversionEvents (c : Criterion) : List Event :=
  c.lostNumbers.map o.lossWarning ++ if o.tellsOfCompletion then [o.completion c] else []

theorem lossWarning_eq (x : Double) : ∃ context, o.lossWarning x = { Event.warning o.clock
    (some .nonFiniteLiteral) "Non-finite numeric literal serialized as null" with
      context := context } :=
  o.attach_withContexts_eq _ _

theorem completion_eq (c : Criterion) : ∃ context, o.completion c = { Event.success o.clock
    .serializeComplete "Criteria node serialized" with context := context } :=
  o.attach_withContexts_eq _ _

theorem warnsOfLoss_lossWarning (x : Double) : (o.lossWarning x).warnsOfLoss = true := by
  obtain ⟨context, h⟩ := o.lossWarning_eq x
  rw [h]
  rfl

theorem not_warnsOfLoss_completion (c : Criterion) : (o.completion c).warnsOfLoss = false := by
  obtain ⟨context, h⟩ := o.completion_eq c
  rw [h]
  rfl

/-- A service that admits warnings admits all of these events. -/
theorem admits_of_mem_conversionEvents {o : Outlook} (hwarn : o.admits .warning = true)
    {c : Criterion} {e : Event} (he : e ∈ o.conversionEvents c) : o.admits e.level = true := by
  obtain he | he := List.mem_append.mp he
  · obtain ⟨x, -, rfl⟩ := List.mem_map.mp he
    obtain ⟨context, h⟩ := o.lossWarning_eq x
    rw [h]
    exact hwarn
  · split at he
    · next hinfo =>
      obtain ⟨context, h⟩ := o.completion_eq c
      rw [List.mem_singleton.mp he, h]
      exact (Bool.and_eq_true_iff.mp hinfo).2
    · cases he

/-- Their messages are short, so the logger gets them as they are. -/
theorem received_conversionEvents {o : Outlook} (hwarn : o.admits .warning = true)
    (c : Criterion) : o.received (o.conversionEvents c) = o.conversionEvents c := by
  have hclamped : ∀ e ∈ o.conversionEvents c, e.clamped = e := by
    intro e he
    obtain he | he := List.mem_append.mp he
    · obtain ⟨x, -, rfl⟩ := List.mem_map.mp he
      obtain ⟨context, h⟩ := o.lossWarning_eq x
      rw [h]
      rfl
    · split at he
      · obtain ⟨context, h⟩ := o.completion_eq c
        rw [List.mem_singleton.mp he, h]
        rfl
      · cases he
  rw [received, List.filter_eq_self.mpr fun e => admits_of_mem_conversionEvents hwarn]
  exact (List.map_congr_left hclamped).trans (List.map_id _)

theorem countP_conversionEvents (c : Criterion) :
    (o.conversionEvents c).countP (·.warnsOfLoss) = c.lostNumbers.length := by
  have hlost : (c.lostNumbers.map o.lossWarning).countP (·.warnsOfLoss) =
      c.lostNumbers.length := by
    rw [List.countP_map]
    exact List.countP_eq_length.mpr fun x _ => o.warnsOfLoss_lossWarning x
  rw [conversionEvents, List.countP_append, hlost]
  split <;> simp [not_warnsOfLoss_completion]

theorem find?_nodes_completion (c : Criterion) :
    Entries.find? "nodes" (o.completion c).context = some (toString c.nodeCount) := by
  have hself (e : Event) (root : String) : Entries.find? "nodes"
      (e.withContexts [("root", root), ("nodes", toString c.nodeCount)]).context =
        some (toString c.nodeCount) := Entries.find?_put_self _ _ _
  rw [completion, attach]
  cases o.input with
  | none => exact hself _ _
  | some i =>
    rw [Option.map_some, Option.getD_some, Event.find?_withContexts, hself]
    obtain ⟨source, _ | index⟩ := i <;> simp [InputContext.entries]

theorem dispatched_lossWarning {o : Outlook} (h : o.admits .warning = true) (x : Double) :
    o.dispatched (.warning o.clock (some .nonFiniteLiteral)
      "Non-finite numeric literal serialized as null") [("value", Session.lostText x)] =
        [.log (o.lossWarning x)] := if_pos h

theorem dispatched_completion (c : Criterion) :
    o.dispatched (.success o.clock .serializeComplete "Criteria node serialized")
      [("root", c.kind.label), ("nodes", toString c.nodeCount)] =
        (if o.admits .info then [o.completion c] else []).map .log := by
  cases h : o.admits .info with
  | true => exact if_pos h
  | false => exact if_neg (Bool.eq_false_iff.mp h)

theorem afterAll_logs (es : List Event) : o.afterAll (es.map .log) = o := by
  induction es with
  | nil => rfl
  | cons e es ih => exact ih

end Outlook

namespace Does
open Session

variable {o : Outlook}

/-- Actions one after the other that log an event each. -/
theorem forM_log {γ : Type} {g : γ → SessionM Unit} {e : γ → Event}
    (h : ∀ x, Does (g x) o () [.log (e x)]) (xs : List γ) :
    Does (xs.forM g) o () ((xs.map e).map .log) := by
  induction xs with
  | nil => exact .pure () o
  | cons x xs ih => exact (h x).bind ih

theorem warnLost (h : o.admits .warning = true) (x : Double) :
    Does (Session.warnLost x) o () [.log (o.lossWarning x)] := by
  rw [← Outlook.dispatched_lossWarning h]
  exact dispatchNow o (fun t => .warning t (some .nonFiniteLiteral) _) _

/-- Preferences that come into force have no part in what is dispatched. -/
theorem logSuccess_recalled (code : Code) (message : String) (context : List (String × String)) :
    Does (Session.logSuccess code message context) (o.afterAll o.recalled) ()
      (o.dispatched (.success o.clock code message) context) := by
  have hlog : (o.afterAll o.recalled).dispatched
      (.success (o.afterAll o.recalled).clock code message) context =
        o.dispatched (.success o.clock code message) context := by
    rw [Outlook.recalled]
    split <;> rfl
  rw [← hlog]
  exact dispatchNow _ (fun t => .success t code message) context

/-- A tree whose fields are in their roles is serialized with these events, between which
preferences may come into force. -/
theorem serialize {c : Criterion} (hrole : ∀ n ∈ c.nodes, n.node.InRole)
    (hwarn : o.admits .warning = true) :
    Does (Session.serialize c) o (.ok c.wire)
      ((c.lostNumbers.map o.lossWarning).map .log ++ (o.recalled ++
        (if o.tellsOfCompletion then [o.completion c] else []).map .log)) := by
  rw [Session.serialize, serialize_result hrole, serialize_lost hrole]
  refine (forM_log (warnLost hwarn) _).bind ?_
  rw [Outlook.afterAll_logs]
  refine (currentPreferences o).bind ?_
  rw [Outlook.tellsOfCompletion]
  cases o.current.converter.logConversions with
  | false => exact .pure _ _
  | true =>
    rw [Bool.true_and, ← Outlook.dispatched_completion, ← List.append_nil (o.dispatched _ _)]
    exact (logSuccess_recalled _ _ _).bind (.pure _ _)

end Does

namespace Session

/-- A tree whose fields are in their roles is serialized whatever its numbers are. A service that
admits warnings logs one of every number that is lost, from left to right, and last of all, if the
preferences ask for it and it admits that too, the news of the tree with its number of nodes; and it
logs nothing else. As many nulls are in the wire form, at the places of these numbers; all other
numbers and the moments stand at theirs, and nothing does at the place of an absent bound. -/
theorem serialize_losses {c : Criterion} {s : Session} (hrole : ∀ n ∈ c.nodes, n.node.InRole)
    (hwarn : s.outlook.admits .warning = true) :
    (Session.serialize c s).1 = .ok c.wire ∧
      Logs s (s.outlook.conversionEvents c) (Session.serialize c s).2 ∧
      (∃ ds, Does (Session.serialize c) s.outlook (.ok c.wire) ds ∧
        ds.filterMap Deed.event? = s.outlook.conversionEvents c) ∧
      (∀ e ∈ s.outlook.conversionEvents c, s.outlook.admits e.level = true) ∧
      (s.outlook.conversionEvents c).countP (·.warnsOfLoss) = c.wire.nulls.length ∧
      c.wire.nulls.length = c.lostNumbers.length ∧
      c.wire.nulls.Perm (c.lostSlots.map (·.place)) ∧
      c.lostSlots.map Slot.number? = c.lostNumbers.map some ∧
      (∀ slot ∈ c.slots, c.wire.at? slot.place = slot.content.map Content.wire) ∧
      Entries.find? "nodes" (s.outlook.completion c).context = some (toString c.nodeCount) := by
  have hdoes := Does.serialize hrole hwarn
  have hevents : List.filterMap Deed.event? ((c.lostNumbers.map s.outlook.lossWarning).map .log ++
      (s.outlook.recalled ++ (if s.outlook.tellsOfCompletion then [s.outlook.completion c]
        else []).map .log)) = s.outlook.conversionEvents c := by
    rw [List.filterMap_append, List.filterMap_append, Deed.events_logs, Deed.events_logs,
      s.outlook.events_recalled]
    rfl
  refine ⟨congrArg Prod.fst (hdoes s rfl), ?_, ⟨_, hdoes, hevents⟩,
    fun e => Outlook.admits_of_mem_conversionEvents hwarn, ?_, c.length_nulls, c.fills.nulls,
    c.map_number?_lostSlots, c.fills.written, s.outlook.find?_nodes_completion c⟩
  · have hlogs := hdoes.logs
    rwa [hevents, Outlook.received_conversionEvents hwarn] at hlogs
  · rw [Outlook.countP_conversionEvents, c.length_nulls]

/-- Three numbers that are lost: a bound in the condition of an arm, the value of the arm, and an
operand. -/
def lostThrice : Criterion :=
  .comparison .lessThan
    (.choice
      (.mk (.field (.numeric .volume (.inRange ⟨some (.infinity false), none⟩))) (.literal .nan)) []
      (.mk (.constant true) (.literal .zero)))
    (.literal (.infinity true))

/-- A session that keeps its events in memory. -/
def remembering : Session :=
  { start [] 0 with service := some (.ofLogger (.memory .empty) .info) }

theorem serialize_losses_lostThrice :
    (∀ n ∈ lostThrice.nodes, n.node.InRole) ∧ remembering.outlook.admits .warning = true ∧
      lostThrice.wire.nulls.length = 3 ∧
      lostThrice.lostSlots.map (·.place) =
        [[.item 1, .item 1, .item 1, .entry minKey], [.item 1, .item 2], [.item 2]] ∧
      ∃ b, (Session.serialize lostThrice remembering).2.service =
          some (.ofLogger (.memory b) .info) ∧
        b.toList.map (fun e => (e.code, Entries.find? "value" e.context)) =
          [(Code.nonFiniteLiteral, some "inf"), (Code.nonFiniteLiteral, some "NaN"),
            (Code.nonFiniteLiteral, some "-inf"), (Code.serializeComplete, none)] := by
  have hrole : ∀ n ∈ lostThrice.nodes, n.node.InRole := by decide
  have hwarn : remembering.outlook.admits .warning = true := rfl
  have hlost : lostThrice.lostNumbers.length = 3 := by decide
  obtain ⟨-, hlogs, -, -, -, hlength, -⟩ := serialize_losses hrole hwarn
  obtain ⟨b, hservice, hbuffer⟩ := hlogs.remembered rfl
  refine ⟨hrole, hwarn, hlength.trans hlost, by decide, b, hservice, ?_⟩
  rw [hbuffer (by decide)]
  rfl

end Session
end ScanCriteria
