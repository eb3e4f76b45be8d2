import CallShape.Action
import Mathlib.Data.List.Forall2

set_option autoImplicit false

namespace CallShape

namespace Action

variable {σ ε α β : Type}

/-- After an action that only reads, the next one starts where it did. -/
theorem bind_of_read {first : Action σ ε α} {next : α → Action σ ε β} {state : σ} {value : α}
    (read : first state = ⟨.ok value, state, []⟩) : (first >>= next) state = next value state := by
  rw [bind_of_ok first next state value (by rw [read]), read]
  simp only [List.nil_append]

theorem bind_read (view : σ → α) (next : α → Action σ ε β) (state : σ) :
    (read view >>= next) state = next (view state) state :=
  bind_of_read rfl

theorem bind_assoc {γ : Type} (first : Action σ ε α) (between : α → Action σ ε β)
    (last : β → Action σ ε γ) :
    first >>= between >>= last = first >>= fun value => between value >>= last := by
  funext state
  cases result : (first state).answer with
  | error reason => simp only [bind, Action.bind, result]
  | ok value =>
      cases later : (between value (first state).state).answer with
      | error reason => simp only [bind, Action.bind, result, later]
      | ok next => simp only [bind, Action.bind, result, later, List.append_assoc]

/-- Wrapping the answer up reports nothing. -/
theorem notices_reply (action : Action σ ε α) (wrap : α → β) (state : σ) :
    ((action >>= fun value => pure (wrap value)) state).notices = (action state).notices := by
  cases result : (action state).answer with
  | error reason => rw [bind_of_error _ _ state reason result]
  | ok value =>
      rw [bind_of_ok _ _ state value result]
      exact List.append_nil _

/-- Wrapping an answer up does not fail. -/
theorem error_of_reply {action : Action σ ε α} {wrap : α → β} {state : σ} {reason : ε}
    (failed : ((action >>= fun value => pure (wrap value)) state).answer = .error reason) :
    (action state).answer = .error reason := by
  cases result : (action state).answer with
  | error other =>
      rw [bind_of_error _ _ state other result] at failed
      cases failed
      rfl
  | ok value =>
      rw [bind_of_ok _ _ state value result] at failed
      cases failed

theorem each_cons_of_error (action : α → Action σ ε β) (item : α) (rest : List α) (state : σ)
    (reason : ε) (failed : (action item state).answer = .error reason) :
    each action (item :: rest) state =
      ⟨.error reason, (action item state).state, (action item state).notices⟩ :=
  bind_of_error _ _ state reason failed

theorem each_cons_state_of_ok (action : α → Action σ ε β) (item : α) (rest : List α) (state : σ)
    (value : β) (success : (action item state).answer = .ok value) :
    (each action (item :: rest) state).state =
      (each action rest (action item state).state).state := by
  rw [each, bind_of_ok _ _ state value success]
  cases later : (each action rest (action item state).state).answer with
  | error reason => rw [bind_of_error _ _ _ reason later]
  | ok values =>
      rw [bind_of_ok _ _ _ values later]
      rfl

theorem each_cons_notices_of_ok (action : α → Action σ ε β) (item : α) (rest : List α)
    (state : σ) (value : β) (success : (action item state).answer = .ok value) :
    (each action (item :: rest) state).notices =
      (action item state).notices ++ (each action rest (action item state).state).notices := by
  rw [each, bind_of_ok _ _ state value success]
  exact congrArg ((action item state).notices ++ ·) (notices_reply _ (value :: ·) _)

theorem each_cons_answer_of_ok (action : α → Action σ ε β) (item : α) (rest : List α)
    (state : σ) (value : β) (values : List β) (success : (action item state).answer = .ok value)
    (later : (each action rest (action item state).state).answer = .ok values) :
    (each action (item :: rest) state).answer = .ok (value :: values) := by
  rw [each, bind_of_ok _ _ state value success, bind_of_ok _ _ _ values later]
  rfl

/-- What every item leaves true is true after all of them. -/
theorem each_preserves (action : α → Action σ ε β) (property : σ → Prop) (items : List α)
    (step : ∀ item ∈ items, ∀ state, property state → property (action item state).state)
    (state : σ) (before : property state) : property (each action items state).state := by
  induction items generalizing state with
  | nil => exact before
  | cons item rest ih =>
      have first := step item List.mem_cons_self state before
      cases result : (action item state).answer with
      | error reason =>
          rw [each_cons_of_error action item rest state reason result]
          exact first
      | ok value =>
          rw [each_cons_state_of_ok action item rest state value result]
          exact ih (fun other member => step other (List.mem_cons_of_mem item member)) _ first

/-- Whatever the action does, it leaves this part of the state as it was. -/
def Leaves {γ : Type} (action : Action σ ε α) (view : σ → γ) : Prop :=
  ∀ state, view (action state).state = view state

/-- Only the first action can change what the next one leaves as it is. -/
theorem Leaves.last {γ : Type} {view : σ → γ} {next : α → Action σ ε β}
    (go : ∀ value, (next value).Leaves view) (first : Action σ ε α) (state : σ) :
    view ((first >>= next) state).state = view (first state).state := by
  cases result : (first state).answer with
  | error reason => rw [bind_of_error first next state reason result]
  | ok value =>
      rw [bind_of_ok first next state value result]
      exact go value _

theorem Leaves.bind {γ : Type} {view : σ → γ} {first : Action σ ε α} {next : α → Action σ ε β}
    (start : first.Leaves view) (go : ∀ value, (next value).Leaves view) :
    (first >>= next).Leaves view :=
  fun state => (Leaves.last go first state).trans (start state)

/-- Wrapping the answer up changes no state. -/
theorem state_reply (action : Action σ ε α) (wrap : α → β) (state : σ) :
    ((action >>= fun value => pure (wrap value)) state).state = (action state).state := by
  have still : ∀ value, (pure (wrap value) : Action σ ε β).Leaves id := fun _ _ => rfl
  exact Leaves.last still action state

theorem Leaves.each {γ : Type} {view : σ → γ} {action : α → Action σ ε β}
    (step : ∀ item, (action item).Leaves view) (items : List α) :
    (Action.each action items).Leaves view := by
  intro state
  exact each_preserves action (fun after => view after = view state) items
    (fun item _ before same => (step item before).trans same) state rfl

end Action

structure Discipline (σ : Type) where
  fit : σ → Prop
  grows : σ → σ → Prop
  refl : ∀ state, grows state state
  trans : ∀ {first second third}, grows first second → grows second third → grows first third

namespace Discipline

variable {σ ε α β : Type}

/-- Started in `state`, the action keeps the discipline, and what it answers has the property. -/
structure Keeps (discipline : Discipline σ) (action : Action σ ε α) (state : σ)
    (holds : α → σ → Prop) : Prop where
  fit : discipline.fit (action state).state
  grown : discipline.grows state (action state).state
  answer : ∀ value, (action state).answer = .ok value → holds value (action state).state

namespace Keeps

variable {discipline : Discipline σ} {state : σ}

theorem of_ok {action : Action σ ε α} {value : α} {after : σ} {notices : List Notice}
    {holds : α → σ → Prop} (outcome : action state = ⟨.ok value, after, notices⟩)
    (fit : discipline.fit after) (grown : discipline.grows state after)
    (given : holds value after) : discipline.Keeps action state holds := by
  refine ⟨?_, ?_, ?_⟩
  · rw [outcome]
    exact fit
  · rw [outcome]
    exact grown
  · rw [outcome]
    intro other answered
    cases answered
    exact given

theorem of_error {action : Action σ ε α} {reason : ε} {after : σ} {notices : List Notice}
    {holds : α → σ → Prop} (outcome : action state = ⟨.error reason, after, notices⟩)
    (fit : discipline.fit after) (grown : discipline.grows state after) :
    discipline.Keeps action state holds := by
  refine ⟨?_, ?_, ?_⟩
  · rw [outcome]
    exact fit
  · rw [outcome]
    exact grown
  · rw [outcome]
    intro value answered
    cases answered

theorem pure {value : α} {holds : α → σ → Prop} (fit : discipline.fit state)
    (given : holds value state) :
    discipline.Keeps (Pure.pure value : Action σ ε α) state holds :=
  of_ok rfl fit (discipline.refl state) given

theorem fail {reason : ε} {holds : α → σ → Prop} (fit : discipline.fit state) :
    discipline.Keeps (Action.fail reason : Action σ ε α) state holds :=
  of_error rfl fit (discipline.refl state)

theorem read {view : σ → α} (fit : discipline.fit state) :
    discipline.Keeps (Action.read view : Action σ ε α) state
      (fun value _ => value = view state) :=
  of_ok rfl fit (discipline.refl state) rfl

theorem bind {first : Action σ ε α} {next : α → Action σ ε β} {holds : α → σ → Prop}
    {ends : β → σ → Prop} (start : discipline.Keeps first state holds)
    (go : ∀ value, (first state).answer = .ok value → holds value (first state).state →
      discipline.fit (first state).state → discipline.grows state (first state).state →
      discipline.Keeps (next value) (first state).state ends) :
    discipline.Keeps (first >>= next) state ends := by
  cases result : (first state).answer with
  | error reason =>
      have stopped := Action.bind_of_error first next state reason result
      exact of_error stopped start.fit start.grown
  | ok value =>
      have continued := Action.bind_of_ok first next state value result
      have rest := go value result (start.answer value result) start.fit start.grown
      refine ⟨?_, ?_, ?_⟩
      · rw [continued]
        exact rest.fit
      · rw [continued]
        exact discipline.trans start.grown rest.grown
      · rw [continued]
        exact rest.answer

/-- Only what the action does in this state counts. -/
theorem congr {action other : Action σ ε α} {holds : α → σ → Prop}
    (same : action state = other state) (kept : discipline.Keeps other state holds) :
    discipline.Keeps action state holds := by
  refine ⟨?_, ?_, ?_⟩
  · rw [same]
    exact kept.fit
  · rw [same]
    exact kept.grown
  · rw [same]
    exact kept.answer

theorem mono {action : Action σ ε α} {holds weaker : α → σ → Prop}
    (kept : discipline.Keeps action state holds)
    (implies : ∀ value after, discipline.fit after → discipline.grows state after →
      holds value after → weaker value after) : discipline.Keeps action state weaker :=
  ⟨kept.fit, kept.grown, fun value answered =>
    implies value _ kept.fit kept.grown (kept.answer value answered)⟩

/-- What holds of one item and its value must survive what is done for the later items. -/
theorem each {action : α → Action σ ε β} {holds : α → β → σ → Prop}
    (stable : ∀ item value before after, discipline.fit before → discipline.fit after →
      discipline.grows before after → holds item value before → holds item value after)
    (step : ∀ item before, discipline.fit before → discipline.grows state before →
      discipline.Keeps (action item) before (holds item))
    (items : List α) (fit : discipline.fit state) :
    discipline.Keeps (Action.each action items) state
      (fun values after =>
        List.Forall₂ (fun item value => holds item value after) items values) := by
  induction items generalizing state with
  | nil => exact pure fit .nil
  | cons item rest ih =>
      apply (step item state fit (discipline.refl state)).bind
      intro value _ valueHolds between grown
      have later := ih (fun other before fitBefore grownBefore =>
        step other before fitBefore (discipline.trans grown grownBefore)) between
      apply later.bind
      intro values _ valuesHold after grownAfter
      have valueHoldsStill := stable item value _ _ between after grownAfter valueHolds
      exact pure after (.cons valueHoldsStill valuesHold)

end Keeps

/-- Keeps the discipline, and is sure to answer. -/
structure Attains (discipline : Discipline σ) (action : Action σ ε α) (state : σ)
    (holds : α → σ → Prop) : Prop extends discipline.Keeps action state holds where
  answers : ∃ value, (action state).answer = .ok value

namespace Attains

variable {discipline : Discipline σ} {state : σ}

theorem pure {value : α} {holds : α → σ → Prop} (fit : discipline.fit state)
    (given : holds value state) :
    discipline.Attains (Pure.pure value : Action σ ε α) state holds :=
  ⟨Keeps.pure fit given, value, rfl⟩

theorem bind {first : Action σ ε α} {next : α → Action σ ε β} {holds : α → σ → Prop}
    {ends : β → σ → Prop} (start : discipline.Attains first state holds)
    (go : ∀ value, holds value (first state).state → discipline.fit (first state).state →
      discipline.grows state (first state).state →
      discipline.Attains (next value) (first state).state ends) :
    discipline.Attains (first >>= next) state ends := by
  obtain ⟨value, result⟩ := start.answers
  have rest := go value (start.answer value result) start.fit start.grown
  refine ⟨start.toKeeps.bind ?_, ?_⟩
  · intro other _ given fit grown
    exact (go other given fit grown).toKeeps
  · obtain ⟨last, answered⟩ := rest.answers
    exact ⟨last, by rw [Action.bind_of_ok first next state value result, answered]⟩

theorem congr {action other : Action σ ε α} {holds : α → σ → Prop}
    (same : action state = other state) (attained : discipline.Attains other state holds) :
    discipline.Attains action state holds :=
  ⟨attained.toKeeps.congr same, by rw [same]; exact attained.answers⟩

/-- The answer, with what holds of it in the state that the action leaves. -/
theorem answered {action : Action σ ε α} {holds : α → σ → Prop}
    (attained : discipline.Attains action state holds) :
    ∃ value, (action state).answer = .ok value ∧ holds value (action state).state := by
  obtain ⟨value, result⟩ := attained.answers
  exact ⟨value, result, attained.answer value result⟩

end Attains

end Discipline

end CallShape
