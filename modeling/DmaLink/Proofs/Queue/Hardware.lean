import DmaLink.Proofs.Engine.Courses
import DmaLink.Queue.Bench

namespace DmaLink

namespace Queue

/-- What the hardware sees of a queue. -/
inductive Signal where
  | write (write : RegisterWrite)
  | request (call : ResetLine.Call)
deriving DecidableEq, Repr

/-- The signals of an access. -/
def Access.signals : Access → List Signal
  | .link access => (Link.Access.writes access).map .write
  | .line call => [.request call]
  | _ => []

end Queue

open Queue

namespace Proc

variable {σ : Type} [Device σ] {α β : Type}

/-- The signals that a program makes when it is run on a bench, oldest first. -/
def signals : Proc Queue.io α → Bench σ → List Signal
  | .ret _, _ => []
  | .act access next, b =>
    Access.signals access ++ signals (next (Bench.answer access b).1) (Bench.answer access b).2

/-- A program that is run on a bench makes these signals, has this result and leaves this bench. -/
def Comes (p : Proc Queue.io α) (b : Bench σ) (made : List Signal) (result : α)
    (after : Bench σ) : Prop :=
  b.run p = (result, after) ∧ p.signals b = made

variable {b after after' : Bench σ} {made made' : List Signal}

theorem comes_ret (result : α) (b : Bench σ) :
    (ret result : Proc Queue.io α).Comes b [] result b := ⟨rfl, rfl⟩

theorem Comes.of_made_eq {p : Proc Queue.io α} {result : α} (hp : p.Comes b made result after)
    (hmade : made = made') : p.Comes b made' result after := hmade ▸ hp

/-- An access is made first. -/
theorem Comes.access {a : Access} {f : a.Reply → Proc Queue.io α} {m : List Signal} {result : α}
    (hrest : (f (Bench.answer a b).1).Comes (Bench.answer a b).2 m result after) :
    (Queue.access a >>= f).Comes b (a.signals ++ m) result after :=
  ⟨hrest.1, congrArg (a.signals ++ ·) hrest.2⟩

section Choices

variable {c : Prop} {decision : Decidable c} {p q : Proc Queue.io α} {result : α}

theorem Comes.ite_pos (hc : c) (hp : p.Comes b made result after) :
    (if c then p else q).Comes b made result after := by
  rwa [if_pos hc]

theorem Comes.ite_neg (hc : ¬c) (hq : q.Comes b made result after) :
    (if c then p else q).Comes b made result after := by
  rwa [if_neg hc]

end Choices

/-- A program that goes on with a result signals what both parts signal. -/
theorem Comes.bind {p : Proc Queue.io α} {f : α → Proc Queue.io β} {result : α} {result' : β}
    (hp : p.Comes b made result after) (hf : (f result).Comes after made' result' after') :
    (p >>= f).Comes b (made ++ made') result' after' := by
  induction p generalizing b made with
  | ret _ =>
    obtain ⟨hrun, rfl⟩ := hp
    obtain ⟨rfl, rfl⟩ := Prod.mk.inj hrun
    exact hf
  | act access next ih =>
    obtain ⟨hrun, rfl⟩ := hp
    obtain ⟨hrun', hmade'⟩ := ih _ ⟨hrun, rfl⟩
    refine ⟨hrun', ?_⟩
    refine (congrArg (Access.signals access ++ ·) hmade').trans ?_
    exact (List.append_assoc ..).symm

theorem Comes.map {p : Proc Queue.io α} {result : α} (hp : p.Comes b made result after)
    (f : α → β) : (p >>= fun result => ret (f result)).Comes b made (f result) after :=
  (hp.bind (f := fun result => ret (f result)) (comes_ret _ _)).of_made_eq (List.append_nil _)

/-- A program over the link writes its registers and leaves all but the link as it was. -/
theorem comes_onLink (p : Proc Link.io α) (b : Bench σ) :
    (onLink p).Comes b ((p.writes b.link).map .write) (p.run Device.answer b.link).1
      { b with link := (p.run Device.answer b.link).2 } := by
  induction p generalizing b with
  | ret result => exact comes_ret result b
  | act access next ih =>
    obtain ⟨hrun, hmade⟩ :=
      ih (Device.answer access b.link).1 { b with link := (Device.answer access b.link).2 }
    refine ⟨hrun, ?_⟩
    refine (congrArg (Access.signals (.link access) ++ ·) hmade).trans ?_
    exact List.map_append.symm

/-- A halt clears the flag and writes to both channels. -/
theorem comes_halt (b : Bench σ) :
    halt.Comes b ((Engine.halt.writes b.link).map .write) ()
      { b with queue.running := false, link := (Engine.halt.run Device.answer b.link).2 } :=
  .access (a := .setRunning false) (comes_onLink Engine.halt _)

end Proc

end DmaLink
