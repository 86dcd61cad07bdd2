import LiveConstraints.Engine.Answering
import LiveConstraints.Proofs.Running
/-!
# What hooks and handlers may do

A hook or handler is handed over as a list of requests. Nothing rests on that: here it is any
`Reaction`, which chooses each request by what came of those before it, and what is handed over is
only the name that a program knows it by (`Reentry.reacting`).
-/

namespace LiveConstraints

open Engine

variable {e e' : Engine}

/-- What a hook or handler does. -/
inductive Reaction where
  /-- Nothing more. -/
  | done
  /-- It makes a request. What it does then depends on the outcome and on the engine it finds. -/
  | ask (request : Request) (next : Except EngineError Answer → Engine → Reaction)

/-- The requests of a list, whatever comes of them. -/
def Reaction.ofList : List Request → Reaction
  | [] => done
  | request :: rest => ask request fun _ _ ↦ ofList rest

/-- Makes the requests of a reaction. -/
def Call.follow (r : Reentry) : Reaction → Call Unit
  | .done => return ()
  | .ask request next => do
    let outcome ← attempt (perform r request)
    Step.record (.made request outcome)
    follow r (next outcome (← get))

theorem Call.follow_ofList (r : Reentry) (requests : List Request) :
    follow r (.ofList requests) = act r requests := by
  induction requests with
  | nil => rfl
  | cons request rest ih =>
    have hfirst : act r (request :: rest) = (do
        let outcome ← attempt (perform r request)
        Step.record (.made request outcome) : Call Unit) >>= fun _ ↦ act r rest := rfl
    rw [hfirst, ← ih, bind_assoc]
    rfl

/-- Whatever the requests come to, making them does not fail. -/
theorem Call.unfailing_follow (r : Reentry) (reaction : Reaction) : Unfailing (follow r reaction) := by
  induction reaction with
  | done => exact .pure _
  | ask request next ih =>
    refine (unfailing_attempt _).bind fun outcome ↦ (Unfailing.lift _).bind fun _ ↦ ?_
    exact .get_bind fun e₁ ↦ ih outcome e₁

/-- **Reacting.** Requests that are made one after another stay within what each of them does together
with its record. -/
theorem Call.stays_follow {R : Engine → Engine → Prop} [IsPreorder Engine R] {r : Reentry}
    (hmade : ∀ {e e'} {request : Request} {outcome : Except EngineError Answer},
      attempt (perform r request) e = (.ok outcome, e') →
        R e { e' with journal := e'.journal.push (.made request outcome) })
    (reaction : Reaction) : Within R e (follow r reaction) := by
  induction reaction generalizing e with
  | done => exact .pure _
  | ask request next ih =>
    show Within (fun _ ↦ R e) e _
    refine (unfailing_attempt _).within_bind fun outcome e₁ hrun ↦ ?_
    refine .ok_bind (lift_run _ _) (.get_bind fun hne ↦ ?_)
    exact trans_of R (hmade hrun) (ih outcome _ hne)

/-- What is handed over as a hook or handler stands for what a program makes of it where it starts. -/
abbrev Program := List Request → Engine → Reaction

namespace Reentry

/-- The ways back into the engine when `n` more calls may be nested, with hooks and handlers of a
program. -/
def reacting (program : Program) : Nat → Reentry
  | 0 => exhausted
  | n + 1 => {
    patience := n + 1
    suggest := fun x v origin force => Call.suggest (reacting program n) x v origin force
    recalculate := fun id => Call.recalculate (reacting program n) id
    act := fun requests e => Call.follow (reacting program n) (program requests e) e }

/-- Hooks and handlers that make the requests they are handed over as. -/
theorem reacting_ofList (n : Nat) : reacting (fun requests _ ↦ .ofList requests) n = ofDepth n := by
  induction n with
  | zero => rfl
  | succ n ih =>
    rw [reacting, ofDepth, ih]
    congr 1
    funext requests
    exact Call.follow_ofList _ requests

end Reentry

end LiveConstraints
