import CallShape.Notice

set_option autoImplicit false

namespace CallShape

structure Outcome (σ ε α : Type) where
  answer : Except ε α
  state : σ
  notices : List Notice

def Action (σ ε α : Type) : Type := σ → Outcome σ ε α

namespace Action

variable {σ τ ε δ α β : Type}

protected def pure (value : α) : Action σ ε α := fun state => ⟨.ok value, state, []⟩

/-- After a failure nothing more is done; what was done before stays. -/
protected def bind (first : Action σ ε α) (next : α → Action σ ε β) : Action σ ε β :=
  fun state =>
    let before := first state
    match before.answer with
    | .error reason => ⟨.error reason, before.state, before.notices⟩
    | .ok value =>
        let after := next value before.state
        ⟨after.answer, after.state, before.notices ++ after.notices⟩

instance : Monad (Action σ ε) where
  pure := Action.pure
  bind := Action.bind

theorem bind_of_ok (first : Action σ ε α) (next : α → Action σ ε β) (state : σ) (value : α)
    (success : (first state).answer = .ok value) :
    (first >>= next) state =
      ⟨(next value (first state).state).answer, (next value (first state).state).state,
        (first state).notices ++ (next value (first state).state).notices⟩ := by
  simp only [bind, Action.bind, success]

theorem bind_of_error (first : Action σ ε α) (next : α → Action σ ε β) (state : σ) (reason : ε)
    (failed : (first state).answer = .error reason) :
    (first >>= next) state =
      ⟨.error reason, (first state).state, (first state).notices⟩ := by
  simp only [bind, Action.bind, failed]

def fail (reason : ε) : Action σ ε α := fun state => ⟨.error reason, state, []⟩

/-- Reads from the state without changing it. -/
def read (view : σ → α) : Action σ ε α := fun state => ⟨.ok (view state), state, []⟩

def modify (change : σ → σ) : Action σ ε Unit := fun state => ⟨.ok (), change state, []⟩

def report (notice : Notice) : Action σ ε Unit := fun state => ⟨.ok (), state, [notice]⟩

def ofExcept : Except ε α → Action σ ε α
  | .ok value => Action.pure value
  | .error reason => fail reason

/-- An action on a part of the state, with its failures renamed. -/
def within (view : σ → τ) (put : σ → τ → σ) (rename : ε → δ) (action : Action τ ε α) :
    Action σ δ α :=
  fun state =>
    let inner := action (view state)
    ⟨inner.answer.mapError rename, put state inner.state, inner.notices⟩

/-- The action for each item in turn, up to the first failure. -/
def each (action : α → Action σ ε β) : List α → Action σ ε (List β)
  | [] => Action.pure []
  | item :: rest => do
      let value ← action item
      let values ← each action rest
      return value :: values

end Action

end CallShape
