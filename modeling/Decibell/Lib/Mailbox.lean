import Mathlib.Tactic.Common

/-!
# Mailboxes

A receiver that handles the messages of a queue in the order they were sent, each at some
later time. What the receiver will be once it has handled what is pending (`settled`)
follows every message at once, and does not depend on when messages are delivered.
-/

namespace Lib

/-- A receiver with the messages it has still to handle, oldest first. -/
structure Mailbox (M R : Type) where
  pending : List M := []
  receiver : R

namespace Mailbox

variable {M R : Type} (handle : R → M → R)

/-- Sends a message. -/
def send (b : Mailbox M R) (m : M) : Mailbox M R := { b with pending := b.pending ++ [m] }

/-- Lets the receiver handle the oldest message, if there is one. -/
def deliver (b : Mailbox M R) : Mailbox M R :=
  match b.pending with
  | [] => b
  | m :: ms => ⟨ms, handle b.receiver m⟩

/-- The receiver once it has handled what is pending. -/
def settled (b : Mailbox M R) : R := b.pending.foldl handle b.receiver

@[simp] theorem settled_send (b : Mailbox M R) (m : M) :
    (b.send m).settled handle = handle (b.settled handle) m := by
  rw [settled, send, List.foldl_append]
  rfl

@[simp] theorem settled_deliver (b : Mailbox M R) :
    (b.deliver handle).settled handle = b.settled handle := by
  obtain ⟨_ | _, r⟩ := b <;> rfl

end Mailbox
end Lib
