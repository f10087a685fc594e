import DmaLink.Engine.Operation

namespace DmaLink

namespace Link

/-- The register writes that an access makes. -/
def Access.writes : Access → List RegisterWrite
  | .writeRegister offset value => [⟨offset, value⟩]
  | _ => []

/-- A reply that a link may give when its windows hold so many words. -/
def Access.Admits (size : Channel → Nat) : (access : Access) → access.Reply → Prop
  | .window channel (.store start words), reply =>
    reply = if start + words.length ≤ size channel then .ok ()
      else .error (.outOfBounds start words.length (size channel))
  | .awaitInterrupt _ _, reply => ∀ cause, reply = .error cause → ∃ fault, cause = .io fault
  | .takeInterrupt _, reply => ∀ cause, reply = .error cause → ∃ fault, cause = .io fault
  | .rearm _, reply => ∀ cause, reply = .error cause → ∃ fault, cause = .io fault
  | _, _ => True

end Link

/-- A device whose windows keep the sizes that they really have. -/
structure Device.Lawful {σ : Type} [Device σ] (size : Channel → σ → Nat) : Prop where
  size_answer : ∀ channel (access : Link.Access) (link : σ),
    size channel (Device.answer access link).2 = size channel link
  admits : ∀ (access : Link.Access) (link : σ),
    access.Admits (fun channel => size channel link) (Device.answer access link).1

/-- A device on which a store that runs past the end of its window changes nothing. -/
def Device.Guarded {σ : Type} [Device σ] (size : Channel → σ → Nat) : Prop :=
  ∀ channel start words (link : σ), size channel link < start + words.length →
    (Device.answer (.window channel (.store start words)) link).2 = link

namespace Proc

variable {α β σ : Type} {size : Channel → Nat}

/-- In every course of admissible replies, the register writes of a program and its result are in
    `post`. -/
def Ensures (size : Channel → Nat) : Proc Link.io α → (List RegisterWrite → α → Prop) → Prop
  | .ret result, post => post [] result
  | .act access next, post => ∀ reply : Link.io.Reply access, access.Admits size reply →
      Ensures size (next reply) fun writes result => post (access.writes ++ writes) result

/-- A weaker postcondition is ensured as well. -/
theorem Ensures.mono {p : Proc Link.io α} {post post' : List RegisterWrite → α → Prop}
    (hp : p.Ensures size post) (himp : ∀ writes result, post writes result → post' writes result) :
    p.Ensures size post' := by
  induction p generalizing post post' with
  | ret result => exact himp [] result hp
  | act access next ih =>
    intro reply hreply
    exact ih reply (hp reply hreply) fun writes result => himp _ result

/-- A program that goes on with a result writes what both parts write. -/
theorem Ensures.bind {p : Proc Link.io α} {f : α → Proc Link.io β}
    {post : List RegisterWrite → β → Prop}
    (hp : p.Ensures size fun writes result =>
      (f result).Ensures size fun writes' result' => post (writes ++ writes') result') :
    (p >>= f).Ensures size post := by
  induction p generalizing post with
  | ret result => exact hp
  | act access next ih =>
    intro reply hreply
    apply ih
    apply (hp reply hreply).mono
    intro writes result hrest
    simpa only [List.append_assoc] using hrest

theorem Ensures.map {p : Proc Link.io α} {f : α → β} {post : List RegisterWrite → β → Prop}
    (hp : p.Ensures size fun writes result => post writes (f result)) :
    (p >>= fun result => ret (f result)).Ensures size post := by
  apply Ensures.bind
  apply hp.mono
  intro writes result hpost
  rw [Ensures, List.append_nil]
  exact hpost

/-- What is ensured whatever the reply of the first access is ensured of the whole. -/
theorem Ensures.perform_bind {access : Link.Access} {f : access.Reply → Proc Link.io β}
    {post : List RegisterWrite → β → Prop}
    (hreplies : ∀ reply : access.Reply, access.Admits size reply →
      (f reply).Ensures size fun writes result => post (access.writes ++ writes) result) :
    (perform (I := Link.io) access >>= f).Ensures size post := hreplies

theorem onWindow_bind (channel : Channel) (p : Proc Window.io α) (f : α → Proc Window.io β) :
    onWindow channel (p >>= f) =
      onWindow channel p >>= fun result => onWindow channel (f result) := by
  induction p with
  | ret result => rfl
  | act access next ih => exact congrArg (act (I := Link.io) _) (funext ih)

/-- The register writes of a program when it is run on a device, in order. -/
def writes [Device σ] : Proc Link.io α → σ → List RegisterWrite
  | .ret _, _ => []
  | .act access next, link =>
    Link.Access.writes access ++
      writes (next (Device.answer access link).1) (Device.answer access link).2

/-- A program that goes on with a result writes on the link that the first part left. -/
theorem writes_bind [Device σ] (p : Proc Link.io α) (f : α → Proc Link.io β) (link : σ) :
    (p >>= f).writes link = p.writes link ++
      (f (p.run Device.answer link).1).writes (p.run Device.answer link).2 := by
  induction p generalizing link with
  | ret result => rfl
  | act access next ih =>
    refine (congrArg (Link.Access.writes access ++ ·) (ih _ _)).trans ?_
    exact (List.append_assoc ..).symm

/-- What a program ensures in every course is so when it is run on a lawful device. -/
theorem Ensures.run [Device σ] {size : Channel → σ → Nat} (hlawful : Device.Lawful size)
    {p : Proc Link.io α} {link : σ} {post : List RegisterWrite → α → Prop}
    (hp : p.Ensures (fun channel => size channel link) post) :
    post (p.writes link) (p.run Device.answer link).1 := by
  induction p generalizing link post with
  | ret result => exact hp
  | act access next ih =>
    have hsize : (fun channel => size channel (Device.answer access link).2) =
        fun channel => size channel link :=
      funext fun channel => hlawful.size_answer channel access link
    have hnext := hp (Device.answer access link).1 (hlawful.admits access link)
    rw [← hsize] at hnext
    exact ih _ hnext

theorem run_bind_of_eq [Device σ] {p : Proc Link.io α} {f : α → Proc Link.io β} {link link' : σ}
    {result : α} (hp : p.run Device.answer link = (result, link')) :
    (p >>= f).run Device.answer link = (f result).run Device.answer link' :=
  (run_bind (I := Link.io) _ p f link).trans
    (congrArg (fun out : α × σ => (f out.1).run Device.answer out.2) hp)

/-- A lawful device keeps the sizes of its windows. -/
theorem size_run [Device σ] {size : Channel → σ → Nat} (hlawful : Device.Lawful size)
    (p : Proc Link.io α) (link : σ) (channel : Channel) :
    size channel (p.run Device.answer link).2 = size channel link := by
  induction p generalizing link with
  | ret result => rfl
  | act access next ih => exact (ih _ _).trans (hlawful.size_answer channel access link)

end Proc

namespace Session

variable {σ : Type} [Device σ]

/-- The register writes that an operation makes on a session. -/
def writes (s : Session σ) (operation : Engine.Operation) : List RegisterWrite :=
  (s.engine.perform (Device.chunkBound s.link) operation).2.writes s.link

/-- The register writes of operations that are performed one after the other. -/
def writesAll (s : Session σ) : List Engine.Operation → List RegisterWrite
  | [] => []
  | operation :: rest => s.writes operation ++ (s.perform operation).2.writesAll rest

end Session

end DmaLink
