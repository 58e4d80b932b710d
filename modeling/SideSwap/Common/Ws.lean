import Mathlib.Data.List.Basic

/-!
# The connection thread

`ws.rs` runs the connection to the server in a thread of its own.  Its user sends it requests, among
them the commands to connect and to disconnect, and receives the messages of the server together
with the changes of the connection.  In sync mode the thread waits for a command before it connects.

The loop of `run` waits at three places, its phases.  `react` is what it does there with the next
thing that happens.  The payloads of requests and responses are arbitrary.
-/

namespace SideSwap.Ws

/-- What the worker tells the connection's thread. -/
inductive WrappedRequest (ρ : Type) where
  | connect
  | disconnect
  | request (req : ρ)
deriving DecidableEq

/-- What the connection's thread tells the worker. -/
inductive WrappedResponse (σ : Type) where
  | connected
  | disconnected
  | response (resp : σ)
deriving DecidableEq

/-- Where the connection's thread waits. -/
inductive Phase where
  /-- the inner loop that waits for a command to connect -/
  | waiting
  /-- the loop that tries to connect -/
  | connecting
  /-- the loop that serves an open connection -/
  | connected
deriving DecidableEq

/-- What can happen next. -/
inductive Input (ρ σ : Type) where
  /-- a request is taken from the queue -/
  | request (req : WrappedRequest ρ)
  /-- an attempt to connect ends -/
  | dialed (success : Bool)
  /-- The next item of the stream.  `none` is its end, an error is a lost connection, and a frame
  may carry a message of the server. -/
  | frame (item : Option (Except Unit (Option σ)))
  /-- the timer, and whether nothing has been received for too long -/
  | tick (timeout : Bool)

/-- What it does next, and what it tells the worker. -/
inductive Reaction (σ : Type) where
  /-- the thread does not wait for this in its phase -/
  | blocked
  /-- the thread panics, which ends the process -/
  | panic
  | next (phase : Phase) (responses : List (WrappedResponse σ))

/-- Where the loop begins, and where it goes when a connection ends. -/
def Phase.initial (sync : Bool) : Phase := if sync then .waiting else .connecting

/-- The end of a connection. -/
def close {σ : Type} (sync : Bool) : Reaction σ := .next (.initial sync) [.disconnected]

/-- The loop of the connection's thread, from one wait to the next. -/
def react {ρ σ : Type} (sync : Bool) : Phase → Input ρ σ → Reaction σ
  | .waiting, .request .connect => .next .connecting []
  | .waiting, .request _ => .next .waiting []
  | .connecting, .dialed true => .next .connected [.connected]
  | .connecting, .dialed false => .next .connecting []
  | .connected, .request .disconnect => close sync
  -- other requests go to the server, and a command to connect is ignored
  | .connected, .request _ => .next .connected []
  | .connected, .frame none => .panic
  | .connected, .frame (some (.error _)) => close sync
  | .connected, .frame (some (.ok message)) =>
    .next .connected (message.toList.map WrappedResponse.response)
  | .connected, .tick timeout => if timeout then close sync else .next .connected []
  | _, _ => .blocked

/-- The changes of the connection that a reaction reports are those of its phase. -/
theorem react_cases {ρ σ : Type} {phase phase' : Phase} {input : Input ρ σ}
    {responses : List (WrappedResponse σ)}
    (hreact : react true phase input = .next phase' responses) :
    (phase = .waiting ∧ phase' = .waiting ∧ input ≠ .request .connect ∧ responses = []) ∨
      (phase' = .connecting ∧ phase ≠ .connected ∧ responses = []) ∨
      (phase' = .connected ∧ phase = .connecting ∧ responses = [.connected]) ∨
      (phase' = .waiting ∧ phase = .connected ∧ responses = [.disconnected]) ∨
      (phase' = .connected ∧ phase = .connected ∧
        ∀ r ∈ responses, r ≠ .connected ∧ r ≠ .disconnected) := by
  unfold react at hreact
  split at hreact <;> try split at hreact
  all_goals cases hreact <;> simp_all [Phase.initial]

end SideSwap.Ws
