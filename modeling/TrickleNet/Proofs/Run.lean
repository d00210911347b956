import Mathlib
import TrickleNet.Node.Operation
import TrickleNet.Proofs.Ringing
/-!
# Runs of a node

A `Node.Run` starts with a node and goes on through requests, calls that let alarms ring, and
whatever the world outside does to the clock, the address and the queues.  Its record is a list of
`Node.Moment`s: each event with the node before and after it.  An alarm that rings is an event of
its own, and a call that lets alarms ring closes with `Node.Event.settled`, so what happened in a
run can be read off its record.

`Node.Reachable` nodes are those at the end of a run that starts with a new node.  Requests never
lead out of them (`Reachable.perform`), and `Node.Rings` describes the loop of `Node.handleTimer`
without its budget (`rings_of_handleTimer`).

`Node.record` carries out a list of requests and keeps the record.

Statements about records are proved of `Node.Trail`, the same thing cut into single events.  A
trail can be cut anywhere (`Trail.split`), also between two alarms of one call.
-/

namespace TrickleNet.Node

variable {ρ : Type} [RandomSource ρ]

/-- One thing that happens to a node. -/
inductive Event where
  /-- A request other than `Operation.handleTimer`. -/
  | request (o : Operation) (now : Instant)
  /-- An alarm rings. -/
  | ring (r : Ring)
  /-- A call that lets alarms ring finds none left that is due. -/
  | settled (now : Instant)

/-- An event of a run. -/
structure Moment (ρ : Type) where
  /-- The node before the event. -/
  before : Node ρ
  /-- The event. -/
  event : Event
  /-- The node after it. -/
  after : Node ρ

/-- The event of the moment takes the node from `Moment.before` to `Moment.after`. -/
inductive Moment.Valid (p : Platform) : Moment ρ → Prop
  | request {n : Node ρ} {o : Operation} {now : Instant} {out : Outcome (Node ρ)} :
      o ≠ .handleTimer → n.perform p o now = .ok out →
        Moment.Valid p ⟨n, .request o now, out.state⟩
  | ring {n m : Node ρ} {now : Instant} {r : Ring} {alarms : AlarmTable} :
      n.alarms.ring? now = some (r, alarms) → handleRing p { n with alarms } r = .ok m →
        Moment.Valid p ⟨n, .ring r, m⟩
  | settled {n : Node ρ} {now : Instant} :
      n.alarms.ring? now = none → Moment.Valid p ⟨n, .settled now, n⟩

/-! ## The loop that lets alarms ring -/

/-- Alarms ring one after the other until none is due at `now`. -/
inductive Rings (p : Platform) (now : Instant) : Node ρ → List (Moment ρ) → Node ρ → Prop
  | settled {n : Node ρ} : n.alarms.ring? now = none → Rings p now n [⟨n, .settled now, n⟩] n
  | ring {n m k : Node ρ} {r : Ring} {alarms : AlarmTable} {ms : List (Moment ρ)} :
      n.alarms.ring? now = some (r, alarms) → handleRing p { n with alarms } r = .ok m →
        Rings p now m ms k → Rings p now n (⟨n, .ring r, m⟩ :: ms) k

theorem rings_of_ringAll {p : Platform} {now : Instant} {budget : Nat} {n m : Node ρ}
    (h : ringAll p now budget n = .ok m) : ∃ ms, Rings p now n ms m := by
  induction budget generalizing n with
  | zero =>
    unfold ringAll at h
    split at h
    · cases h
    · rename_i hdue
      obtain rfl := Except.ok.inj h
      exact ⟨_, .settled (by simpa [AlarmTable.ring?] using hdue)⟩
  | succ budget ih =>
    unfold ringAll ringNext at h
    cases hring : n.alarms.ring? now with
    | none =>
      obtain rfl : n = m := by simpa [hring] using h
      exact ⟨_, .settled hring⟩
    | some e =>
      obtain ⟨r, alarms⟩ := e
      simp only [hring, Option.map_some] at h
      obtain ⟨k, hk, hrest⟩ := Checked.bind_eq_ok_iff.1 h
      obtain ⟨ms, hms⟩ := ih hrest
      exact ⟨_, .ring hring hk hms⟩

theorem rings_of_handleTimer {p : Platform} {now : Instant} {n m : Node ρ}
    (h : handleTimer p n now = .ok m) : ∃ ms, Rings p now n ms m :=
  rings_of_ringAll h

/-! ## Runs and reachable nodes -/

/-- The two nodes differ at most in what the world outside sets: the clock, whether the address is
usable, and the queues. -/
structure SameCore (n m : Node ρ) : Prop where
  source : m.source = n.source
  upkeep : m.upkeep = n.upkeep
  samples : m.samples = n.samples
  alarms : m.alarms = n.alarms
  dodags : m.dodags = n.dodags
  mayAdvertise : m.mayAdvertise = n.mayAdvertise
  sinceSolicit : m.sinceSolicit = n.sinceSolicit
  counts : m.counts = n.counts

omit [RandomSource ρ] in
theorem SameCore.refl (n : Node ρ) : n.SameCore n := ⟨rfl, rfl, rfl, rfl, rfl, rfl, rfl, rfl⟩

omit [RandomSource ρ] in
theorem SameCore.trans {n m k : Node ρ} (h : n.SameCore m) (h' : m.SameCore k) : n.SameCore k where
  source := h'.source.trans h.source
  upkeep := h'.upkeep.trans h.upkeep
  samples := h'.samples.trans h.samples
  alarms := h'.alarms.trans h.alarms
  dodags := h'.dodags.trans h.dodags
  mayAdvertise := h'.mayAdvertise.trans h.mayAdvertise
  sinceSolicit := h'.sinceSolicit.trans h.sinceSolicit
  counts := h'.counts.trans h.counts

omit [RandomSource ρ] in
/-- The world outside may change whether the link-local address is usable. -/
theorem sameCore_addressReady (n : Node ρ) (b : Bool) : n.SameCore { n with addressReady := b } :=
  ⟨rfl, rfl, rfl, rfl, rfl, rfl, rfl, rfl⟩

/-- A run that starts with `n₀`, its record and the node at its end. -/
inductive Run (p : Platform) (n₀ : Node ρ) : List (Moment ρ) → Node ρ → Prop
  | start : Run p n₀ [] n₀
  | request {ms : List (Moment ρ)} {n : Node ρ} {o : Operation} {now : Instant}
      {out : Outcome (Node ρ)} :
      Run p n₀ ms n → o ≠ .handleTimer → n.perform p o now = .ok out →
        Run p n₀ (ms ++ [⟨n, .request o now, out.state⟩]) out.state
  | timer {ms rs : List (Moment ρ)} {n m : Node ρ} {now : Instant} :
      Run p n₀ ms n → Rings p now n rs m → Run p n₀ (ms ++ rs) m
  | outside {ms : List (Moment ρ)} {n m : Node ρ} :
      Run p n₀ ms n → n.SameCore m → Run p n₀ ms m

/-- The node stands at the end of a run that starts with a new node. -/
def Reachable (p : Platform) (n : Node ρ) : Prop :=
  ∃ source clock ready ms, Run p (.new source clock ready) ms n

theorem reachable_new (p : Platform) (source : ρ) (clock : Instant) (ready : Bool) :
    Reachable p (.new source clock ready) :=
  ⟨source, clock, ready, [], .start⟩

/-- No request leads out of the reachable nodes. -/
theorem Reachable.perform {p : Platform} {n : Node ρ} {o : Operation} {now : Instant}
    {out : Outcome (Node ρ)} (hn : Reachable p n) (h : n.perform p o now = .ok out) :
    Reachable p out.state := by
  obtain ⟨source, clock, ready, ms, hrun⟩ := hn
  by_cases ho : o = .handleTimer
  · subst ho
    obtain ⟨m, hm, hout⟩ := Checked.bind_eq_ok_iff.1 h
    obtain rfl := Except.ok.inj hout
    obtain ⟨rs, hrs⟩ := rings_of_handleTimer hm
    exact ⟨source, clock, ready, _, .timer hrun hrs⟩
  · exact ⟨source, clock, ready, _, .request hrun ho h⟩

/-- Nor does the world outside. -/
theorem Reachable.sameCore {p : Platform} {n m : Node ρ} (hn : Reachable p n) (h : n.SameCore m) :
    Reachable p m := by
  obtain ⟨source, clock, ready, ms, hrun⟩ := hn
  exact ⟨source, clock, ready, ms, .outside hrun h⟩

/-! ## Recording a run -/

/-- Lets alarms ring until none is due, and records them. -/
def recordRings (p : Platform) (now : Instant) : (budget : Nat) → Node ρ →
    Checked (List (Moment ρ) × Node ρ)
  | 0, _ => .error .stalled
  | budget + 1, n =>
    match n.alarms.ring? now with
    | none => .ok ([⟨n, .settled now, n⟩], n)
    | some (r, alarms) => do
      let m ← handleRing p { n with alarms } r
      let (ms, k) ← recordRings p now budget m
      return (⟨n, .ring r, m⟩ :: ms, k)

/-- Carries out a request and records what happens. -/
def recordRequest (p : Platform) (n : Node ρ) (o : Operation) (now : Instant) :
    Checked (List (Moment ρ) × Node ρ) :=
  if o = .handleTimer then recordRings p now (n.ringBudget now + 1) n
  else (n.perform p o now).map fun out => ([⟨n, .request o now, out.state⟩], out.state)

/-- Carries out requests one after the other, and records them. -/
def record (p : Platform) : List (Operation × Instant) → Node ρ →
    Checked (List (Moment ρ) × Node ρ)
  | [], n => .ok ([], n)
  | (o, now) :: os, n => do
    let (rs, m) ← recordRequest p n o now
    let (ms, k) ← record p os m
    return (rs ++ ms, k)

theorem rings_of_recordRings {p : Platform} {now : Instant} {budget : Nat} {n m : Node ρ}
    {ms : List (Moment ρ)} (h : recordRings p now budget n = .ok (ms, m)) : Rings p now n ms m := by
  induction budget generalizing n ms with
  | zero => cases h
  | succ budget ih =>
    unfold recordRings at h
    split at h
    · rename_i hnone
      cases h
      exact .settled hnone
    · rename_i r alarms hring
      obtain ⟨k, hk, h⟩ := Checked.bind_eq_ok_iff.1 h
      obtain ⟨⟨ms, l⟩, hms, h⟩ := Checked.bind_eq_ok_iff.1 h
      cases h
      exact .ring hring hk (ih hms)

/-- What is recorded of one request: alarms that ring, or the request itself. -/
theorem recordRequest_eq_ok {p : Platform} {o : Operation} {now : Instant} {n m : Node ρ}
    {ms : List (Moment ρ)} (h : n.recordRequest p o now = .ok (ms, m)) :
    Rings p now n ms m ∨ o ≠ .handleTimer ∧ ∃ out, n.perform p o now = .ok out ∧
      ms = [⟨n, .request o now, out.state⟩] ∧ m = out.state := by
  unfold recordRequest at h
  split at h
  · exact .inl (rings_of_recordRings h)
  · rename_i ho
    cases hout : n.perform p o now with
    | error f => simp [hout, Except.map] at h
    | ok out =>
      simp only [hout, Except.map, Except.ok.injEq, Prod.mk.injEq] at h
      exact .inr ⟨ho, out, rfl, h.1.symm, h.2.symm⟩

/-- What is recorded is the record of a run. -/
theorem Run.record {p : Platform} {os : List (Operation × Instant)} {n₀ n m : Node ρ}
    {ms ms' : List (Moment ρ)} (hrun : Run p n₀ ms n) (h : n.record p os = .ok (ms', m)) :
    Run p n₀ (ms ++ ms') m := by
  induction os generalizing n ms ms' with
  | nil =>
    cases h
    simpa using hrun
  | cons e os ih =>
    obtain ⟨o, now⟩ := e
    obtain ⟨⟨rs, k⟩, hrs, h⟩ := Checked.bind_eq_ok_iff.1 h
    obtain ⟨⟨ms'', l⟩, hms, h⟩ := Checked.bind_eq_ok_iff.1 h
    cases h
    rw [← List.append_assoc]
    rcases recordRequest_eq_ok hrs with hrings | ⟨ho, out, hout, rfl, rfl⟩
    · exact ih (.timer hrun hrings) hms
    · exact ih (.request hrun ho hout) hms

/-- The node at the end of a record that starts with a new node is reachable. -/
theorem reachable_of_record {p : Platform} {os : List (Operation × Instant)} {source : ρ}
    {clock : Instant} {ready : Bool} {ms : List (Moment ρ)} {n : Node ρ}
    (h : record p os (.new source clock ready) = .ok (ms, n)) : Reachable p n :=
  ⟨source, clock, ready, ms, Run.start.record h⟩

/-! ## Trails -/

/-- A record that leads from one node to another, event by event. -/
inductive Trail (p : Platform) : Node ρ → List (Moment ρ) → Node ρ → Prop
  | nil {n m : Node ρ} : n.SameCore m → Trail p n [] m
  | cons {n k : Node ρ} {m : Moment ρ} {ms : List (Moment ρ)} :
      n.SameCore m.before → m.Valid p → Trail p m.after ms k → Trail p n (m :: ms) k

variable {p : Platform} {n n₀ m k : Node ρ} {ms ms' : List (Moment ρ)}

theorem SameCore.trail (h : n.SameCore m) (ht : Trail p m ms k) : Trail p n ms k := by
  cases ht with
  | nil h' => exact .nil (h.trans h')
  | cons h' hm ht => exact .cons (h.trans h') hm ht

theorem Trail.append (h : Trail p n ms m) (h' : Trail p m ms' k) : Trail p n (ms ++ ms') k := by
  induction h with
  | nil hsame => exact hsame.trail h'
  | cons hsame hm _ ih => exact .cons hsame hm (ih h')

theorem Trail.split (h : Trail p n (ms ++ ms') k) : ∃ m, Trail p n ms m ∧ Trail p m ms' k := by
  induction ms generalizing n with
  | nil => exact ⟨n, .nil (.refl n), h⟩
  | cons s ms ih =>
    obtain _ | ⟨hsame, hs, hrest⟩ := h
    obtain ⟨m, hm, hk⟩ := ih hrest
    exact ⟨m, .cons hsame hs hm, hk⟩

/-- A property that no event of the record breaks, and that the world outside cannot touch, holds at
the end of a trail if it holds at its start. -/
theorem Trail.invariant {I : Node ρ → Prop} (hworld : ∀ n m, n.SameCore m → I n → I m)
    (hstep : ∀ m ∈ ms, m.Valid p → I m.before → I m.after) (h : Trail p n ms k) (hn : I n) :
    I k := by
  induction h with
  | nil hsame => exact hworld _ _ hsame hn
  | cons hsame hm _ ih =>
    refine ih (fun m hmem => hstep m (List.mem_cons_of_mem _ hmem)) ?_
    exact hstep _ List.mem_cons_self hm (hworld _ _ hsame hn)

theorem Rings.trail {now : Instant} (h : Rings p now n ms k) : Trail p n ms k := by
  induction h with
  | settled hnone => exact .cons (.refl _) (.settled hnone) (.nil (.refl _))
  | ring hring hm _ ih => exact .cons (.refl _) (.ring hring hm) ih

/-- A run is a trail. -/
theorem Run.trail (h : Run p n₀ ms n) : Trail p n₀ ms n := by
  induction h with
  | start => exact .nil (.refl _)
  | request _ ho hout ih => exact ih.append (.cons (.refl _) (.request ho hout) (.nil (.refl _)))
  | timer _ hrs ih => exact ih.append hrs.trail
  | outside _ hsame ih => simpa using ih.append (.nil hsame)

end TrickleNet.Node
