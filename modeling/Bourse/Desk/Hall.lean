import Bourse.Desk.Basic

/-! The hall before the desk. Callers wait outside while no place in line is free. Who is admitted
has a place kept for him; he goes to the end of the line, and a moment later is ready to be heard.
The desk takes one message after the other from the line, and the first shutdown it takes is the
last message it takes. Then the door is closed: nobody else is admitted, and the line is swept once,
up to its end or to somebody who is not ready yet. Who is admitted by then still goes into line. -/
namespace Bourse

/-- A message of a client. Calls are numbered as they are made. -/
structure Call where
  number : Nat
  client : Nat
  message : Desk.Message

namespace Call

/-- A shutdown is done for its caller once it can be heard. -/
def onEntry (c : Call) : List Desk.Answer :=
  match c.message with
  | .shutdown => [.sent]
  | .command _ => []

def onDismissal (c : Call) : List Desk.Answer :=
  match c.message with
  | .shutdown => []
  | .command _ => [.reply (.error (.unavailable Desk.unansweredText))]

end Call

/-- `entered` are the calls that ever came into line, in the order they did, of which the first
`seen` have left it again; those numbered in `unready` are not ready yet. `left` are the calls whose
callers have stopped waiting. -/
structure Hall where
  desk : Desk
  isOpen : Bool
  isSwept : Bool
  calls : List Call
  outside : List Call
  admitted : List Call
  entered : List Call
  unready : List Nat
  seen : Nat
  answers : Nat → List Desk.Answer
  left : List Nat

namespace Hall

def opened (d : Desk) : Hall := ⟨d, true, false, [], [], [], [], [], 0, fun _ => [], []⟩

/-- Answers reach those who still wait. -/
def answer (h : Hall) (c : Call) (as : List Desk.Answer) : Hall :=
  { h with answers := fun n =>
      if n = c.number ∧ n ∉ h.left then h.answers n ++ as else h.answers n }

/-- Those who stand in line once it has been swept. Nobody looks at them any more. -/
def lost (h : Hall) : List Call := if h.isSwept then h.entered.drop h.seen else []

/-- What callers do: they call, they give up outside, or they stop waiting for the reply. -/
inductive Asks : Hall → Hall → Prop where
  | call {h : Hall} (client : Nat) (message : Desk.Message) :
      Asks h { h with
        calls := h.calls ++ [⟨h.calls.length, client, message⟩]
        outside := h.outside ++ [⟨h.calls.length, client, message⟩] }
  | giveUp {h : Hall} {before after : List Call} {c : Call} : h.outside = before ++ c :: after →
      Asks h { h with outside := before ++ after, left := c.number :: h.left }
  | leave {h : Hall} {i : Nat} {c : Call} {command : Command} : h.seen ≤ i →
      h.entered[i]? = some c → c.number ∉ h.unready → c.message = .command command →
      Asks h { h with left := c.number :: h.left }

/-- What the desk and the line do, with room for so many in line. The calls of one client come in as
they were made. Whether the door is open is asked when a place is given, and not again on the way to
it. The clock tells the moment of each command by its number. -/
inductive Serves (room : Nat) (clock : Nat → Moment) : Hall → Hall → Prop where
  | letIn {h : Hall} {before after : List Call} {c : Call} : h.isOpen = true →
      h.admitted.length + h.entered.length < h.seen + room → h.outside = before ++ c :: after →
      (∀ b ∈ before, b.client ≠ c.client) →
      Serves room clock h { h with outside := before ++ after, admitted := h.admitted ++ [c] }
  | enter {h : Hall} {before after : List Call} {c : Call} : h.admitted = before ++ c :: after →
      (∀ b ∈ before, b.client ≠ c.client) →
      Serves room clock h { h with
        admitted := before ++ after
        entered := h.entered ++ [c]
        unready := c.number :: h.unready }
  | ready {h : Hall} {c : Call} : c ∈ h.entered → c.number ∈ h.unready →
      Serves room clock h
        ({ h with unready := h.unready.filter (· ≠ c.number) }.answer c c.onEntry)
  | work {h : Hall} {c : Call} {command : Command} {d : Desk} {r : Except Rejection Reply} :
      h.desk.serving = true → h.entered[h.seen]? = some c → c.number ∉ h.unready →
      c.message = .command command → h.desk.handle command (clock h.seen) = .ok (d, r) →
      Serves room clock h ({ h with desk := d, seen := h.seen + 1 }.answer c [.reply r])
  | stop {h : Hall} {c : Call} : h.desk.serving = true → h.entered[h.seen]? = some c →
      c.number ∉ h.unready → c.message = .shutdown →
      Serves room clock h { h with desk := h.desk.shutdown.1, seen := h.seen + 1 }
  | close {h : Hall} : h.desk.serving = false → h.isOpen = true →
      Serves room clock h { h with isOpen := false }
  | dismiss {h : Hall} {c : Call} : h.isOpen = false → h.isSwept = false →
      h.entered[h.seen]? = some c → c.number ∉ h.unready →
      Serves room clock h ({ h with seen := h.seen + 1 }.answer c c.onDismissal)
  | sweep {h : Hall} : h.isOpen = false → h.isSwept = false →
      (∀ c, h.entered[h.seen]? = some c → c.number ∈ h.unready) →
      Serves room clock h { h with isSwept := true }
  | refuse {h : Hall} {before after : List Call} {c : Call} : h.isOpen = false →
      h.outside = before ++ c :: after →
      Serves room clock h ({ h with outside := before ++ after }.answer c
        [.reply (.error (.unavailable Desk.closedText))])

/-- Whatever happens next in the hall. -/
def Next (room : Nat) (clock : Nat → Moment) (h h' : Hall) : Prop :=
  Asks h h' ∨ Serves room clock h h'

/-- All that can come of a hall that opens before this desk. -/
inductive Reached (room : Nat) (clock : Nat → Moment) (first : Desk) : Hall → Prop where
  | opened : Reached room clock first (.opened first)
  | asked {h h' : Hall} : Reached room clock first h → Asks h h' → Reached room clock first h'
  | served {h h' : Hall} : Reached room clock first h → Serves room clock h h' →
      Reached room clock first h'

/-- Nothing is left to do unless somebody calls. -/
def Settled (room : Nat) (clock : Nat → Moment) (h : Hall) : Prop :=
  ∀ h', ¬ Serves room clock h h'

end Hall

end Bourse
