import TrickleNet.Ticks
/-!
# Watching a parent

A node predicts from each advertisement of its preferred parent when the next one is due.  A
`Watch` holds that prediction: the window opens at `Watch.opens`, the advertisement is expected at
the end of the listen phase, and the window closes with the end of the jitter phase.

```text
   heard        opens               expected               closes
    |---delay---|------ listen ------|------- jitter -------|
```
-/

namespace TrickleNet

/-- What is known about a parent. -/
inductive Watch.Stage where
  /-- Nothing was heard while it was preferred. -/
  | awaitingFirst
  /-- A window is predicted. -/
  | awaitingWindow
  /-- A window is predicted, and the parent was asked for an advertisement. -/
  | solicited
  /-- The window closed in silence, and the parent is being probed. -/
  | silent
deriving DecidableEq, Repr

/-- The predicted reception window of a parent. -/
structure Watch where
  /-- What is known about the parent. -/
  stage : Watch.Stage := .awaitingFirst
  /-- When the window opens. -/
  opens : Instant := .zero
  /-- The listen phase of the window. -/
  listen : Span := .zero
  /-- The jitter phase of the window, clock skew included. -/
  jitter : Span := .zero
  /-- How late the parent was when its lateness was last measured. -/
  latency : Option Span := none
deriving DecidableEq, Repr

namespace Watch

instance : Inhabited Watch := ⟨{}⟩

/-- Whether an advertisement was heard and no window has been missed since. -/
def tracking (w : Watch) : Bool :=
  match w.stage with
  | .awaitingWindow | .solicited => true
  | .awaitingFirst | .silent => false

/-- Whether a solicitation awaits its answer. -/
def asking (w : Watch) : Bool :=
  match w.stage with
  | .solicited | .silent => true
  | .awaitingFirst | .awaitingWindow => false

/-- When the next advertisement is expected. -/
def expected (w : Watch) : Instant := w.opens + w.listen

/-- When the window closes. -/
def closes (w : Watch) : Instant := w.expected + w.jitter

/-- The length of the window. -/
def length (w : Watch) : Span := w.listen + w.jitter

end Watch

end TrickleNet
