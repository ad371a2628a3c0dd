import ClassAtlas.Error

namespace ClassAtlas

/-!
# Cancelling a scan

* `CancellationToken` — whether a scan is to stop, and why;
* `cancel`, `cancelWith` — asking it to stop;
* `check` — an error once it is to stop.
-/

/-- Whether work is to stop. -/
structure CancellationToken where
  /-- Whether it is. -/
  cancelled : Bool
  /-- The reason given first, if one was given. -/
  reason : Option String
  deriving DecidableEq, Repr

namespace CancellationToken

/-- A token that stops nothing. -/
def new : CancellationToken := ⟨false, none⟩

/-- Asks to stop. -/
def cancel (token : CancellationToken) : CancellationToken := { token with cancelled := true }

/-- Asks to stop for a reason.  A reason given before stays. -/
def cancelWith (token : CancellationToken) (reason : String) : CancellationToken :=
  { cancelled := true, reason := token.reason <|> some reason }

/-- Fails once the work is to stop. -/
def check (token : CancellationToken) : Except Error Unit :=
  if !token.cancelled then .ok ()
  else
    match token.reason with
    | some reason => .error (.other s!"Scan cancelled: {reason}")
    | none => .error (.other "Scan cancelled")

end CancellationToken

end ClassAtlas
