import CssSelectors.Warning
import Mathlib.Data.List.Basic

/-!
# Warnings that are given once

A warning is new if its key was not recorded since the record was last cleared. The key
puts the component between brackets before the message, and nothing in it tells that
bracket from one in the component or in the message. So two warnings are taken for one if
they are the same, or if the message of one goes on with what ends the component of the
other.
-/

namespace CssSelectors

namespace Warning

/-- The component of one warning is that of the other with a bracket and more behind it, and this
stands in the message of the other: `a] b` with the message `c`, and `a` with `b] c`. -/
def Overlaps (longer shorter : Warning) : Prop :=
  ∃ middle, longer.component = shorter.component ++ "] " ++ middle ∧
    shorter.message = middle ++ "] " ++ longer.message

theorem key_eq_of_overlaps {longer shorter : Warning} (h : longer.Overlaps shorter) :
    longer.key = shorter.key := by
  obtain ⟨middle, hcomponent, hmessage⟩ := h
  simp [key, hcomponent, hmessage, String.append_assoc]

/-- Where two components differ in length, the longer one goes on into the message of the other. -/
theorem eq_or_overlaps_of_append {longer shorter : Warning} {middle : List Char}
    (hcomponent : longer.component.toList = shorter.component.toList ++ middle)
    (hmessage : "] ".toList ++ shorter.message.toList =
      middle ++ ("] ".toList ++ longer.message.toList)) :
    longer = shorter ∨ longer.Overlaps shorter := by
  match middle with
  | [] =>
      left
      obtain ⟨component, message⟩ := longer
      obtain ⟨component', message'⟩ := shorter
      obtain rfl : component = component' := String.toList_inj.1 (by simpa using hcomponent)
      obtain rfl : message' = message := String.toList_inj.1 (by simpa using hmessage)
      rfl
  | [c] => simp at hmessage
  | c :: d :: middle =>
      right
      obtain ⟨rfl, rfl, hrest⟩ :
          ']' = c ∧ ' ' = d ∧ shorter.message.toList =
            middle ++ ("] ".toList ++ longer.message.toList) := by simpa using hmessage
      refine ⟨String.ofList middle, String.toList_inj.1 ?_, String.toList_inj.1 ?_⟩
      · simp [hcomponent]
      · rw [hrest]
        simp

theorem key_eq_iff {warning other : Warning} :
    warning.key = other.key ↔
      warning = other ∨ warning.Overlaps other ∨ other.Overlaps warning := by
  constructor
  · intro h
    have hkey : warning.component.toList ++ ("] ".toList ++ warning.message.toList) =
        other.component.toList ++ ("] ".toList ++ other.message.toList) := by
      simpa [key] using congrArg String.toList h
    rcases List.append_eq_append_iff.1 hkey with ⟨middle, hcomponent, hmessage⟩ |
      ⟨middle, hcomponent, hmessage⟩
    · rcases eq_or_overlaps_of_append hcomponent hmessage with heq | hoverlaps
      · exact .inl heq.symm
      · exact .inr (.inr hoverlaps)
    · rcases eq_or_overlaps_of_append hcomponent hmessage with heq | hoverlaps
      · exact .inl heq
      · exact .inr (.inl hoverlaps)
  · rintro (rfl | h | h)
    · rfl
    · exact key_eq_of_overlaps h
    · exact (key_eq_of_overlaps h).symm

end Warning

/-! ## Histories -/

namespace WarningLog

/-- What can be done with a record of warnings. -/
inductive Action
  | record (warning : Warning)
  | clear
  | setEnabled (enabled : Bool)
deriving DecidableEq, Repr

namespace Action

/-- The warnings given since the record was last cleared, once the action is taken. -/
def extend (given : List Warning) : Action → List Warning
  | .record warning => warning :: given
  | .clear => []
  | .setEnabled _ => given

/-- The warnings given since the record was last cleared in the course of some actions. -/
def given (actions : List Action) : List Warning :=
  actions.foldl extend []

def isSetEnabled : Action → Bool
  | .setEnabled _ => true
  | _ => false

end Action

/-- What an action tells, if it tells something, and the record behind it. -/
def act (log : WarningLog) : Action → Option Bool × WarningLog
  | .record warning => ((log.record warning).1, (log.record warning).2)
  | .clear => (none, log.clear)
  | .setEnabled enabled => (none, log.setEnabled enabled)

def after (log : WarningLog) (actions : List Action) : WarningLog :=
  actions.foldl (fun log action => (log.act action).2) log

def answers (log : WarningLog) : List Action → List Bool
  | [] => []
  | action :: actions => (log.act action).1.toList ++ answers (log.act action).2 actions

variable {log log' : WarningLog} {given : List Warning}

theorem record_eq_true_iff {warning : Warning} :
    (log.record warning).1 = true ↔ warning.key ∉ log.recorded := by
  unfold record
  split <;> simp_all

/-- The record holds the keys of the warnings and no others. -/
def Holds (log : WarningLog) (given : List Warning) : Prop :=
  ∀ key, key ∈ log.recorded ↔ ∃ warning ∈ given, warning.key = key

theorem Holds.act (h : log.Holds given) (action : Action) :
    (log.act action).2.Holds (action.extend given) := by
  intro key
  cases action with
  | record warning =>
      simp only [WarningLog.act, record, Action.extend, List.mem_cons, exists_eq_or_imp]
      rw [← h key]
      split
      · next hold =>
          have hmem : warning.key ∈ log.recorded := by simpa using hold
          exact ⟨.inr, fun hkey => hkey.elim (fun heq => heq ▸ hmem) id⟩
      · rw [List.mem_cons, eq_comm]
  | clear => simp [WarningLog.act, WarningLog.clear, Action.extend]
  | setEnabled enabled => exact h key

theorem Holds.after (h : log.Holds given) (actions : List Action) :
    (log.after actions).Holds (actions.foldl Action.extend given) := by
  induction actions generalizing log given with
  | nil => exact h
  | cons action actions ih => exact ih (h.act action)

theorem answers_append (log : WarningLog) (before behind : List Action) :
    log.answers (before ++ behind) = log.answers before ++ (log.after before).answers behind := by
  induction before generalizing log with
  | nil => rfl
  | cons action before ih =>
      rw [List.cons_append, answers, ih, answers, List.append_assoc]
      rfl

/-! ## What is told does not depend on what is shown -/

theorem act_of_recorded_eq (h : log.recorded = log'.recorded) (action : Action) :
    (log.act action).1 = (log'.act action).1 ∧
      (log.act action).2.recorded = (log'.act action).2.recorded := by
  cases action with
  | record warning =>
      simp only [act, record, h]
      split <;> simp [h]
  | clear => exact ⟨rfl, rfl⟩
  | setEnabled enabled => exact ⟨rfl, h⟩

theorem answers_of_recorded_eq (h : log.recorded = log'.recorded) (actions : List Action) :
    log.answers actions = log'.answers actions := by
  induction actions generalizing log log' with
  | nil => rfl
  | cons action actions ih =>
      obtain ⟨hanswer, hrecorded⟩ := act_of_recorded_eq h action
      rw [answers, answers, hanswer, ih hrecorded]

theorem answers_filter (log : WarningLog) (actions : List Action) :
    log.answers (actions.filter (!·.isSetEnabled)) = log.answers actions := by
  induction actions generalizing log with
  | nil => rfl
  | cons action actions ih =>
      cases action with
      | setEnabled enabled =>
          have hrecorded : log.recorded = (log.act (.setEnabled enabled)).2.recorded := rfl
          rw [List.filter_cons_of_neg (by simp [Action.isSetEnabled]), ih, answers]
          exact answers_of_recorded_eq hrecorded actions
      | record warning =>
          rw [List.filter_cons_of_pos (by simp [Action.isSetEnabled]), answers, answers, ih]
      | clear => rw [List.filter_cons_of_pos (by simp [Action.isSetEnabled]), answers, answers, ih]

/-- After any actions on an empty record, a warning is told to be new exactly if none was given
since the record was last cleared that is the same or overlaps with it. Whether warnings are shown
makes no difference. -/
theorem answers_history (enabled : Bool) (shown : String) :
    (∀ before warning behind, ∃ new,
      answers ⟨[], enabled, shown⟩ (before ++ .record warning :: behind) =
        answers ⟨[], enabled, shown⟩ before ++
          new :: answers (after ⟨[], enabled, shown⟩ (before ++ [.record warning])) behind ∧
      (new = true ↔ ∀ earlier ∈ Action.given before,
        earlier ≠ warning ∧ ¬ earlier.Overlaps warning ∧ ¬ warning.Overlaps earlier)) ∧
    ∀ actions, answers ⟨[], enabled, shown⟩ (actions.filter (!·.isSetEnabled)) =
      answers ⟨[], enabled, shown⟩ actions := by
  refine ⟨fun before warning behind => ?_, answers_filter _⟩
  have hempty : Holds ⟨[], enabled, shown⟩ [] := fun key => by simp
  have hholds : (after ⟨[], enabled, shown⟩ before).Holds (Action.given before) :=
    hempty.after before
  refine ⟨((after ⟨[], enabled, shown⟩ before).record warning).1, ?_, ?_⟩
  · have hafter : after ⟨[], enabled, shown⟩ (before ++ [.record warning]) =
        ((after ⟨[], enabled, shown⟩ before).act (.record warning)).2 := List.foldl_append ..
    rw [answers_append, answers, hafter]
    rfl
  · rw [record_eq_true_iff, hholds]
    simp only [Warning.key_eq_iff, not_exists, not_and, not_or]

/-- A component that goes on behind a bracket is taken for another one. -/
theorem answers_history_overlap :
    answers {} [.record ⟨"a", "b] c"⟩, .record ⟨"a] b", "c"⟩] = [true, false] := by
  obtain ⟨new, hanswers, hnew⟩ :=
    (answers_history true "").1 [.record ⟨"a", "b] c"⟩] ⟨"a] b", "c"⟩ []
  have hoverlaps : Warning.Overlaps ⟨"a] b", "c"⟩ ⟨"a", "b] c"⟩ := ⟨"b", by decide, by decide⟩
  have hold : new ≠ true := fun h => (hnew.1 h _ List.mem_cons_self).2.2 hoverlaps
  rw [Bool.eq_false_iff.2 hold] at hanswers
  exact hanswers

end WarningLog

end CssSelectors
