namespace DmaLink

/-- A set of atomic accesses and the type of the reply to each. -/
structure Interface where
  Access : Type
  Reply : Access → Type

/-- A program over the accesses of `I` with a result in `α`. -/
inductive Proc (I : Interface) (α : Type) where
  /-- The program is over. -/
  | ret (result : α)
  /-- The program makes an access and goes on with its reply. -/
  | act (access : I.Access) (next : I.Reply access → Proc I α)

namespace Proc

variable {I J : Interface} {α β σ : Type}

/-- Runs a program and goes on with its result. -/
def bind : Proc I α → (α → Proc I β) → Proc I β
  | ret result, f => f result
  | act access next, f => act access fun reply => bind (next reply) f

instance : Monad (Proc I) where
  pure := ret
  bind := bind

/-- The program that makes one access. -/
def perform (access : I.Access) : Proc I (I.Reply access) := act access ret

/-- The same program over a larger set of accesses. -/
def embed (into : I.Access → J.Access)
    (back : (access : I.Access) → J.Reply (into access) → I.Reply access) : Proc I α → Proc J α
  | ret result => ret result
  | act access next => act (into access) fun reply => embed into back (next (back access reply))

/-- Runs a program to its end, each access answered by `answer`. -/
def run (answer : (access : I.Access) → σ → I.Reply access × σ) : Proc I α → σ → α × σ
  | ret result, state => (result, state)
  | act access next, state =>
    match answer access state with
    | (reply, state) => run answer (next reply) state

/-- Runs a program on a state where an access may be refused, which abandons the program. What
    was done before stays done. -/
def attempt {ε : Type} (answer : (access : I.Access) → σ → Except ε (I.Reply access) × σ) :
    Proc I α → σ → Except ε α × σ
  | ret result, state => (.ok result, state)
  | act access next, state =>
    match answer access state with
    | (.ok reply, state) => attempt answer (next reply) state
    | (.error cause, state) => (.error cause, state)

/-- Runs a program until it is over or `stops` holds of its next access in the state it is made in,
    and gives what is left of it. -/
def runUntil (answer : (access : I.Access) → σ → I.Reply access × σ)
    (stops : I.Access → σ → Bool) : Proc I α → σ → Proc I α × σ
  | ret result, state => (ret result, state)
  | act access next, state =>
    if stops access state then (act access next, state)
    else
      match answer access state with
      | (reply, state) => runUntil answer stops (next reply) state

@[simp]
theorem pure_eq_ret (result : α) : (pure result : Proc I α) = ret result := rfl

@[simp]
theorem ret_bind (result : α) (f : α → Proc I β) : (ret result >>= f) = f result := rfl

@[simp]
theorem act_bind (access : I.Access) (next : I.Reply access → Proc I α) (f : α → Proc I β) :
    (act access next >>= f) = act access fun reply => next reply >>= f := rfl

@[simp]
theorem run_ret (answer : (access : I.Access) → σ → I.Reply access × σ) (result : α)
    (state : σ) : run answer (ret result) state = (result, state) := rfl

@[simp]
theorem run_act (answer : (access : I.Access) → σ → I.Reply access × σ) (access : I.Access)
    (next : I.Reply access → Proc I α) (state : σ) :
    run answer (act access next) state =
      run answer (next (answer access state).1) (answer access state).2 := rfl

@[simp]
theorem run_perform (answer : (access : I.Access) → σ → I.Reply access × σ)
    (access : I.Access) (state : σ) : run answer (perform access) state = answer access state := rfl

/-- A program that goes on after another runs on the state that the other left. -/
@[simp]
theorem run_bind (answer : (access : I.Access) → σ → I.Reply access × σ) (p : Proc I α)
    (f : α → Proc I β) (state : σ) :
    run answer (p >>= f) state =
      run answer (f (run answer p state).1) (run answer p state).2 := by
  induction p generalizing state with
  | ret result => rfl
  | act access next ih => simp [ih]

section Stopping

variable {answer : (access : I.Access) → σ → I.Reply access × σ} {stops : I.Access → σ → Bool}
  {access : I.Access} {state : σ}

/-- A program goes on past an access that does not stop it. -/
theorem runUntil_act (hready : stops access state = false) (next : I.Reply access → Proc I α) :
    runUntil answer stops (act access next) state =
      runUntil answer stops (next (answer access state).1) (answer access state).2 :=
  if_neg (ne_true_of_eq_false hready)

/-- A program stands still at an access that stops it. -/
theorem runUntil_act_of_stops (hstops : stops access state = true)
    (next : I.Reply access → Proc I α) :
    runUntil answer stops (act access next) state = (act access next, state) :=
  if_pos hstops

/-- A program that begins with an access that does not stop it goes on with the reply. -/
theorem runUntil_perform_bind (access : I.Access) (hready : stops access state = false)
    (f : I.Reply access → Proc I α) :
    runUntil answer stops (perform access >>= f) state =
      runUntil answer stops (f (answer access state).1) (answer access state).2 :=
  runUntil_act hready _

end Stopping

end Proc

end DmaLink
