import Mathlib
import TrickleNet.Proofs.Pair
/-!
# What holds of a parent and its child

`Pair.Linked` holds after every tick, whatever the delays on the link are, and no tick stops for any
other reason than a counter that is full (`run_linked`).  The parent is a beacon, so each frame
follows the one before, and the child is a steady node all of whose alarms lie ahead.

As long as the frames arrive in the order in which they were sent, the ones received are the first
ones sent, and `Linked.now_le_next` bounds the arrival of the next one from below: that frame is in
flight, or the parent is about to send it as its last frame announced.
-/

namespace TrickleNet.Pair

open Node Checked

variable {ρ : Type} {c : Setting} {n m : Node ρ} {b k : Nat} {t now : Instant}
  {f g : Frame} {frames : List Frame} {s s' : Pair ρ}

/-- The child keeps up with its alarms: none is due before `t`. -/
structure Listening (c : Setting) (t : Instant) (b : Nat) (n : Node ρ) : Prop where
  steady : ∃ d due, n.Steady c.platform c.inst c.address d due
  tracks : n.SoundTracks
  waiting : ∀ q e, n.alarms.deadline? q = some e → t ≤ e
  within : n.Within b

/-- The frames on the link before the tick `now`: those sent, those in flight and those received. -/
structure Traffic (c : Setting) (now : Instant) (sent inFlight received : List Frame) : Prop where
  length_eq : received.length + inFlight.length = sent.length
  follows : sent.IsChain fun f g => f.Follows g.toAdvert
  frame : ∀ (j : Nat) (f : Frame), sent[j]? = some f →
    f.sentAt < now ∧ f.arrival = f.sentAt + c.delay j ∧ f.Sensible c.platform c.params
  sensible : ∀ f ∈ inFlight, f.Sensible c.platform c.params
  ahead : ∀ f ∈ inFlight, now ≤ f.arrival
  past : ∀ f ∈ received, f.arrival < now
  order : sent.Pairwise (fun f g => f.arrival ≤ g.arrival) → sent = received ++ inFlight

/-- What parent, child and link agree on before tick `k`. -/
structure Linked (c : Setting) (k : Nat) (s : Pair ρ) : Prop where
  now_eq : s.now.ticks = k
  parent : ∃ d due, s.parent.Announcing c.platform c.inst c.address c.params s.now
    (s.sent.getLast?.map Frame.toAdvert) d due
  within : s.parent.Within (8 * k + 2)
  child : Listening c s.now (8 * k + s.received.length + 2) s.child
  sent_le : s.sent.length ≤ k
  traffic : Traffic c s.now s.sent s.inFlight s.received

/-! ## The parent sends -/

variable [RandomSource ρ]

omit [RandomSource ρ] in
/-- A frame is what the parent was about to send. -/
theorem Announcing.load {last : Option Advert} {d : Dodag} {due : Instant}
    (hn : n.Announcing c.platform c.inst c.address c.params now last d due)
    (hquiet : n.alarms.ring? now = none) (count : Nat) :
    ({ n with outbox := ∅ } : Node ρ).Announcing c.platform c.inst c.address c.params
        (now + Span.ofTicks 1)
        (((Pair.load c now count n.outbox.toList).getLast?.map Frame.toAdvert).or last) d due ∧
      (Pair.load c now count n.outbox.toList).length ≤ 1 ∧
      ∀ f ∈ Pair.load c now count n.outbox.toList, f.sentAt = now ∧
        f.arrival = now + c.delay count ∧ (∀ x ∈ last, x.Follows f.toAdvert) ∧
        f.Sensible c.platform c.params := by
  have hlater : now + Span.ofTicks 1 ≤ due := by
    have hlt := AlarmTable.ring?_eq_none_iff.1 hquiet _ _ hn.steady.due
    rw [Instant.lt_iff] at hlt
    rw [Instant.le_iff, Instant.ticks_add, Span.ticks_ofTicks]
    omega
  have hsteady : ({ n with outbox := ∅ } : Node ρ).Steady c.platform c.inst c.address d due :=
    hn.steady.congr rfl rfl
  have hbeacon {last : Option Advert} (hb : n.Beacon c.params d due last) :
      ({ n with outbox := ∅ } : Node ρ).Beacon c.params d due last :=
    ⟨hb.ready, hb.params_eq, hb.eager, hb.unheard, hb.listening, hb.waiting⟩
  rcases hn.sent with ⟨hempty, hb⟩ | ⟨x, hx, hlist, -, hb, hfollows, hsensible⟩
  · have hload : Pair.load c now count n.outbox.toList = [] := by
      rw [hempty]
      rfl
    rw [hload]
    exact ⟨⟨hsteady, hlater, hn.closing, hn.probing, .inl ⟨rfl, hbeacon hb⟩⟩,
      Nat.zero_le 1, by simp⟩
  · obtain ⟨sentAt, l⟩ := x
    obtain rfl : sentAt = now := hx
    have hload : Pair.load c sentAt count n.outbox.toList =
        [⟨⟨sentAt, l⟩, sentAt + c.delay count⟩] := by
      rw [hlist]
      rfl
    rw [hload]
    refine ⟨⟨hsteady, hlater, hn.closing, hn.probing, .inl ⟨rfl, hbeacon hb⟩⟩, Nat.le_refl 1, ?_⟩
    intro f hf
    obtain rfl := List.mem_singleton.1 hf
    exact ⟨rfl, rfl, hfollows, hsensible⟩

/-- While the alarms of the parent ring, it sends at most one frame. -/
theorem parent_handleTimer {last : Option Advert}
    (hn : ∃ d due, n.Announcing c.platform c.inst c.address c.params now last d due)
    (hw : n.Within b) (hnow : now.ticks < maxTicks)
    (hpostpone : 1 ≤ c.platform.postponeDelay.ticks) (count : Nat) :
    (handleTimer c.platform n now).FinishesBelow (b + 8) ∧
      ∀ m, handleTimer c.platform n now = .ok m → m.Within (b + 8) ∧
        (∃ d due, ({ m with outbox := ∅ } : Node ρ).Announcing c.platform c.inst c.address c.params
          (now + Span.ofTicks 1)
          (((load c now count m.outbox.toList).getLast?.map Frame.toAdvert).or last) d due) ∧
        (load c now count m.outbox.toList).length ≤ 1 ∧
        ∀ f ∈ load c now count m.outbox.toList, f.sentAt = now ∧
          f.arrival = now + c.delay count ∧ (∀ x ∈ last, x.Follows f.toAdvert) ∧
          f.Sensible c.platform c.params := by
  obtain ⟨d, due, hn⟩ := hn
  have hready (q : Purpose) (e : Instant) (he : n.alarms.deadline? q = some e) : now ≤ e := by
    have hwatch : n.alarms.deadline? (.watch c.inst c.address) = none := hn.closing
    have hprobe : n.alarms.deadline? (.probe c.inst c.address) = none := hn.probing
    rcases hn.steady.only q e he with rfl | rfl | rfl
    · obtain rfl : due = e := Option.some.inj (hn.steady.due.symm.trans he)
      exact hn.ready
    · exact absurd (hwatch.symm.trans he) (by simp)
    · exact absurd (hprobe.symm.trans he) (by simp)
  obtain ⟨hfinish, hwithin⟩ := hn.steady.handleTimer_finishes hw hready hnow hpostpone
  refine ⟨hfinish, fun m hm => ⟨(hwithin m hm).1, ?_⟩⟩
  obtain ⟨ms, hrings⟩ := rings_of_handleTimer hm
  obtain ⟨d', due', hm'⟩ := hrings.announcing hnow hn
  obtain ⟨hannouncing, hlength, hframes⟩ := Announcing.load hm' hrings.quiet count
  exact ⟨⟨d', due', hannouncing⟩, hlength, hframes⟩

/-! ## The child receives -/

omit [RandomSource ρ] in
theorem Listening.mono {b' : Nat} (h : Listening c t b n) (hle : b ≤ b') : Listening c t b' n :=
  ⟨h.steady, h.tracks, h.waiting, h.within.mono hle⟩

omit [RandomSource ρ] in
theorem deliver_eq_ok (h : deliver c now n f = .ok m) :
    ∃ out, dioReceived c.platform n c.inst c.address f.lookahead now = .ok out ∧ m = out.state := by
  obtain ⟨out, hout, h⟩ := Checked.bind_eq_ok_iff.1 h
  exact ⟨out, hout, (Except.ok.inj h).symm⟩

/-- While its alarms ring, the child catches up with the clock. -/
theorem Listening.handleTimer (h : Listening c now b n) (hnow : now.ticks < maxTicks)
    (hpostpone : 1 ≤ c.platform.postponeDelay.ticks) :
    (handleTimer c.platform n now).FinishesBelow (b + 8) ∧
      ∀ m, Node.handleTimer c.platform n now = .ok m →
        Listening c (now + Span.ofTicks 1) (b + 8) { m with outbox := ∅ } := by
  obtain ⟨d, due, hs⟩ := h.steady
  obtain ⟨hfinish, hnext⟩ := hs.handleTimer_finishes h.within h.waiting hnow hpostpone
  refine ⟨hfinish, ?_⟩
  intro m hm
  obtain ⟨hwithin, d', due', hs'⟩ := hnext m hm
  obtain ⟨ms, hrings⟩ := rings_of_handleTimer hm
  refine ⟨⟨d', due', hs'.congr rfl rfl⟩, hrings.trail.soundTracks h.tracks, fun q e he => ?_,
    ⟨hwithin.counts, hwithin.dodags, hwithin.purges⟩⟩
  have hlt := AlarmTable.ring?_eq_none_iff.1 hrings.quiet q e he
  rw [Instant.lt_iff] at hlt
  rw [Instant.le_iff, Instant.ticks_add, Span.ticks_ofTicks]
  omega

/-- A frame that reaches the child leaves all its alarms ahead. -/
theorem Listening.deliver (h : Listening c (now + Span.ofTicks 1) b n)
    (hf : f.Sensible c.platform c.params) :
    (deliver c now n f).FinishesBelow (b + 1) ∧ ∀ m, Pair.deliver c now n f = .ok m →
      Listening c (now + Span.ofTicks 1) (b + 1) m := by
  obtain ⟨hfinish, hwithin⟩ :
      (dioReceived c.platform n c.inst c.address f.lookahead now).FinishesBelow (b + 1) ∧ _ :=
    dioReceived_finishes h.within
  refine ⟨.bind hfinish fun _ _ => .ok _, ?_⟩
  intro m hm
  obtain ⟨out, hout, rfl⟩ := deliver_eq_ok hm
  obtain ⟨d, due, hs⟩ := h.steady
  obtain ⟨parents, hs'⟩ := hs.dioReceived hout
  have hvalid : Moment.Valid c.platform
      ⟨n, .request (.command (.dioReceived c.inst c.address f.lookahead)) now, out.state⟩ :=
    .request (by simp) hout
  obtain ⟨_, -, -, hdivides⟩ := hf.divides
  exact ⟨⟨_, due, hs'⟩, hvalid.soundTracks h.tracks,
    hs.waiting_dioReceived h.waiting hf.delay_pos hdivides.jitter_pos hout, hwithin out hout⟩

omit [RandomSource ρ] in
/-- What each frame keeps holds once all of them have reached the child. -/
theorem foldlM_deliver {I : List Frame → Node ρ → Prop} {rs : List Frame}
    (hstep : ∀ hs f ts n m, frames = hs ++ f :: ts → I (rs ++ hs) n → deliver c now n f = .ok m →
      I (rs ++ hs ++ [f]) m)
    (hn : I rs n) (h : frames.foldlM (deliver c now) n = .ok m) : I (rs ++ frames) m := by
  induction frames generalizing rs n with
  | nil =>
    obtain rfl := Except.ok.inj h
    simpa using hn
  | cons f frames ih =>
    rw [List.foldlM_cons] at h
    obtain ⟨k, hk, h⟩ := Checked.bind_eq_ok_iff.1 h
    have hf : I (rs ++ [f]) k := by
      simpa using hstep [] f frames n k rfl (by simpa using hn) hk
    have hrest : I (rs ++ [f] ++ frames) m := by
      refine ih (fun hs g ts n m hframes hI hm => ?_) hf h
      have hg := hstep (f :: hs) g ts n m (by rw [hframes, List.cons_append])
      simp only [List.append_assoc, List.singleton_append] at hI hg ⊢
      exact hg hI hm
    simpa using hrest

/-- The frames that are due reach the child without a fault. -/
theorem Listening.deliverAll (h : Listening c (now + Span.ofTicks 1) b n)
    (hframes : ∀ f ∈ frames, f.Sensible c.platform c.params) :
    (frames.foldlM (Pair.deliver c now) n).FinishesBelow (b + frames.length) ∧
      ∀ m, frames.foldlM (Pair.deliver c now) n = .ok m →
        Listening c (now + Span.ofTicks 1) (b + frames.length) m := by
  induction frames generalizing n b with
  | nil =>
    refine ⟨.ok n, ?_⟩
    intro m hm
    obtain rfl := Except.ok.inj hm
    exact h
  | cons f frames ih =>
    obtain ⟨hf, hframes⟩ := List.forall_mem_cons.1 hframes
    obtain ⟨hfinish, hnext⟩ := h.deliver hf
    rw [List.foldlM_cons, List.length_cons, ← Nat.add_assoc, Nat.add_right_comm]
    refine ⟨.bind (hfinish.mono (by omega)) fun k hk => (ih (hnext k hk) hframes).1, ?_⟩
    intro m hm
    obtain ⟨k, hk, hm⟩ := Checked.bind_eq_ok_iff.1 hm
    exact (ih (hnext k hk) hframes).2 m hm

/-! ## A tick -/

/-- Of frames in the order of their arrival, those that are due come first. -/
theorem due_append_flying (h : frames.Pairwise fun f g => f.arrival ≤ g.arrival) (now : Instant) :
    (frames.filter fun f => f.arrival ≤ now) ++ (frames.filter fun f => now < f.arrival) =
      frames := by
  induction frames with
  | nil => rfl
  | cons f frames ih =>
    obtain ⟨hf, hframes⟩ := List.pairwise_cons.1 h
    by_cases hdue : f.arrival ≤ now
    · have hlate : ¬now < f.arrival := by
        rw [Instant.le_iff] at hdue
        rw [Instant.lt_iff]
        omega
      simp [hdue, hlate, ih hframes]
    · have hlate (g : Frame) (hg : g ∈ f :: frames) : ¬g.arrival ≤ now ∧ now < g.arrival := by
        have hle : f.arrival ≤ g.arrival := by
          rcases List.mem_cons.1 hg with rfl | hg
          · exact Nat.le_refl _
          · exact hf g hg
        rw [Instant.le_iff] at hle hdue
        rw [Instant.le_iff, Instant.lt_iff]
        omega
      rw [List.filter_eq_nil_iff.2 fun g hg => by simp [(hlate g hg).1],
        List.filter_eq_self.2 fun g hg => by simp [(hlate g hg).2]]
      rfl

theorem length_due_add_flying (frames : List Frame) (now : Instant) :
    (frames.filter fun f => f.arrival ≤ now).length +
      (frames.filter fun f => now < f.arrival).length = frames.length := by
  induction frames with
  | nil => rfl
  | cons f frames ih =>
    simp only [List.filter_cons, Instant.le_iff, Instant.lt_iff, decide_eq_true_eq] at ih ⊢
    split <;> split <;> simp only [List.length_cons] <;> omega

/-- What a tick is made of. -/
theorem tick_eq_ok (h : tick c s = .ok s') :
    ∃ (parent child child' : Node ρ) (frames : List Frame),
      handleTimer c.platform s.parent s.now = .ok parent ∧
      handleTimer c.platform s.child s.now = .ok child ∧
      frames = load c s.now s.sent.length parent.outbox.toList ∧
      ((s.inFlight ++ frames).filter fun f => f.arrival ≤ s.now).foldlM (deliver c s.now)
        { child with outbox := ∅ } = .ok child' ∧
      s' = {
        parent := { parent with outbox := ∅ }
        child := child'
        sent := s.sent ++ frames
        inFlight := (s.inFlight ++ frames).filter fun f => s.now < f.arrival
        received := s.received ++ (s.inFlight ++ frames).filter fun f => f.arrival ≤ s.now
        now := s.now + Span.ofTicks 1 } := by
  obtain ⟨parent, hparent, h⟩ := Checked.bind_eq_ok_iff.1 h
  obtain ⟨child, hchild, h⟩ := Checked.bind_eq_ok_iff.1 h
  obtain ⟨child', hdeliver, h⟩ := Checked.bind_eq_ok_iff.1 h
  exact ⟨parent, child, child', _, hparent, hchild, rfl, hdeliver, (Except.ok.inj h).symm⟩

/-- What a tick does to the link. -/
theorem Traffic.tick {sent inFlight received : List Frame}
    (h : Traffic c now sent inFlight received) (hnow : now.ticks < maxTicks)
    (hlength : frames.length ≤ 1)
    (hframes : ∀ f ∈ frames, f.sentAt = now ∧ f.arrival = now + c.delay sent.length ∧
      (∀ x ∈ sent.getLast?.map Frame.toAdvert, x.Follows f.toAdvert) ∧
      f.Sensible c.platform c.params) :
    Traffic c (now + Span.ofTicks 1) (sent ++ frames)
      ((inFlight ++ frames).filter fun f => now < f.arrival)
      (received ++ (inFlight ++ frames).filter fun f => f.arrival ≤ now) := by
  have hlt : now < now + Span.ofTicks 1 := by
    rw [Instant.lt_iff, Instant.ticks_add, Span.ticks_ofTicks]
    omega
  refine ⟨?_, ?_, ?_, ?_, ?_, ?_, ?_⟩
  · have hdue := length_due_add_flying (inFlight ++ frames) now
    have hlength := h.length_eq
    rw [List.length_append] at hdue
    rw [List.length_append, List.length_append]
    omega
  · refine List.isChain_append.2 ⟨h.follows, ?_, fun f hf g hg => ?_⟩
    · match frames, hlength with
      | [], _ => exact .nil
      | [f], _ => exact .singleton f
    · exact (hframes g (List.mem_of_mem_head? hg)).2.2.1 _ (by simp [Option.mem_def.1 hf])
  · intro j f hf
    rw [List.getElem?_append] at hf
    split at hf
    · obtain ⟨hsent, hframe⟩ := h.frame j f hf
      refine ⟨?_, hframe⟩
      rw [Instant.lt_iff] at hsent hlt ⊢
      omega
    · obtain ⟨rfl, harrival, -, hsensible⟩ := hframes f (List.mem_of_getElem? hf)
      have hj : j - sent.length < frames.length := (List.getElem?_eq_some_iff.1 hf).1
      obtain rfl : j = sent.length := by omega
      exact ⟨hlt, harrival, hsensible⟩
  · intro f hf
    rcases List.mem_append.1 (List.mem_filter.1 hf).1 with hf | hf
    · exact h.sensible f hf
    · exact (hframes f hf).2.2.2
  · intro f hf
    have hlate := of_decide_eq_true (List.mem_filter.1 hf).2
    rw [Instant.lt_iff] at hlate
    rw [Instant.le_iff, Instant.ticks_add, Span.ticks_ofTicks]
    omega
  · intro f hf
    have hle : f.arrival ≤ now := by
      rcases List.mem_append.1 hf with hf | hf
      · exact Nat.le_of_lt (h.past f hf)
      · exact of_decide_eq_true (List.mem_filter.1 hf).2
    exact Nat.lt_of_le_of_lt hle hlt
  · intro hsorted
    have horder := h.order (List.pairwise_append.1 hsorted).1
    rw [horder, List.append_assoc] at hsorted ⊢
    rw [List.append_assoc, due_append_flying (List.pairwise_append.1 hsorted).2.1]

omit [RandomSource ρ] in
theorem Traffic.sensible_due {sent inFlight received : List Frame}
    (h : Traffic c now sent inFlight received)
    (hframes : ∀ f ∈ frames, f.Sensible c.platform c.params) :
    ∀ f ∈ (inFlight ++ frames).filter fun f => f.arrival ≤ now, f.Sensible c.platform c.params := by
  intro f hf
  rcases List.mem_append.1 (List.mem_filter.1 hf).1 with hf | hf
  · exact h.sensible f hf
  · exact hframes f hf

/-- A tick does not stop, unless a counter is full, and keeps parent and child in agreement. -/
theorem Linked.tick (hs : Linked c k s) (hc : c.Sound) (hk : k < maxTicks) :
    (tick c s).FinishesBelow (9 * (k + 1) + 2) ∧
      ∀ s', Pair.tick c s = .ok s' → Linked c (k + 1) s' := by
  have hnow : s.now.ticks < maxTicks := by
    rw [hs.now_eq]
    exact hk
  have hsent := hs.sent_le
  have hlength := hs.traffic.length_eq
  obtain ⟨hfinish, hparent⟩ :=
    parent_handleTimer hs.parent hs.within hnow hc.postponeDelay s.sent.length
  obtain ⟨hfinish', hchild⟩ := hs.child.handleTimer hnow hc.postponeDelay
  constructor
  · refine .bind (hfinish.mono (by omega)) ?_
    intro parent hp
    refine .bind (hfinish'.mono (by omega)) ?_
    intro child hch
    obtain ⟨-, -, hone, hnew⟩ := hparent parent hp
    have hsensible := hs.traffic.sensible_due fun f hf => (hnew f hf).2.2.2
    have hlength' := (hs.traffic.tick hnow hone hnew).length_eq
    have hfinal := ((hchild child hch).deliverAll hsensible).1
    rw [List.length_append, List.length_append] at hlength'
    exact .bind (hfinal.mono (by omega)) fun _ _ => .ok _
  · intro s' h
    obtain ⟨parent, child, child', frames, hp, hch, hframes, hfinal, rfl⟩ := tick_eq_ok h
    obtain ⟨hwithin, hannouncing, hone, hnew⟩ := hparent parent hp
    rw [← hframes] at hannouncing hone hnew
    have hsensible := hs.traffic.sensible_due fun f hf => (hnew f hf).2.2.2
    have hchild' := ((hchild child hch).deliverAll hsensible).2 child' hfinal
    refine ⟨?_, ?_, ?_, ?_, ?_, hs.traffic.tick hnow hone hnew⟩
    · simp only [Instant.ticks_add, Span.ticks_ofTicks, hs.now_eq]
      omega
    · dsimp only
      rw [List.getLast?_append, Option.map_or]
      exact hannouncing
    · exact Within.mono ⟨hwithin.counts, hwithin.dodags, hwithin.purges⟩ (by omega)
    · refine hchild'.mono ?_
      dsimp only
      rw [List.length_append]
      omega
    · dsimp only
      rw [List.length_append]
      omega

/-! ## Runs -/

omit [RandomSource ρ] in
/-- A node that has joined and has a usable address is about to send its first frame. -/
theorem Joined.announcing {d : Dodag} {due : Instant} (h : Joined c true n d due) (hc : c.Sound) :
    n.Announcing c.platform c.inst c.address c.params .zero none d due := by
  have hnone (q : Purpose) (hq : q ≠ .advertise c.inst) : n.alarms.deadline? q = none :=
    Option.eq_none_iff_forall_ne_some.2 fun e he => hq (h.alarms q e he)
  refine ⟨h.steady, Nat.zero_le _, hnone _ (by simp), hnone _ (by simp),
    .inl ⟨h.outbox, ?_, h.params_eq, hc.eager, h.heard, by simp, ?_⟩⟩
  · simp [latchReady, h.addressReady]
  · intro hwait
    rw [h.phase] at hwait
    cases hwait

/-- What a child knows that has chosen its parent and heard nothing of it. -/
structure Fresh (c : Setting) (n : Node ρ) : Prop where
  track : n.track c.inst c.address = ⟨True, some {}, none, none⟩
  samples : n.samples = []
  missed : n.counts.windowsMissed = 0
  probes : n.counts.probesSent = 0

/-- The child after it has chosen its parent. -/
def chosen (c : Setting) (n : Node ρ) : Node ρ :=
  ((addParent c.platform n c.inst c.address).state.setPreferred c.inst (some c.address)).state

omit [RandomSource ρ] in
/-- The parent becomes a candidate, and then the preferred one. -/
theorem Joined.chosen_eq {ready : Bool} {d : Dodag} {due : Instant} (h : Joined c ready n d due)
    (hc : c.Sound) :
    ∃ e e' : Dodag, chosen c n = (n.putDodag c.inst e).putDodag c.inst e' ∧
      e = { d with parents := d.parents.insert c.address {} } ∧
      e' = { e with preferred := some c.address } := by
  have hnew : d.parents.contains c.address = false := by simp [h.parents, Table.contains]
  have hroom : ¬c.platform.maxParents ≤ d.parents.size := by
    rw [h.parents]
    exact Nat.not_le.2 hc.maxParents
  have hadd : (addParent c.platform n c.inst c.address).state =
      n.putDodag c.inst { d with parents := d.parents.insert c.address {} } := by
    simp only [addParent, h.steady.find, hnew, Bool.false_eq_true, if_false, if_neg hroom,
      Outcome.state_granted]
  refine ⟨_, _, ?_, rfl, rfl⟩
  rw [chosen, hadd]
  simp [setPreferred, Node.putDodag, Table.contains, h.preferred]

omit [RandomSource ρ] in
theorem Joined.fresh {ready : Bool} {d : Dodag} {due : Instant} (h : Joined c ready n d due)
    (hc : c.Sound) (hw : n.Within b) :
    (∃ d, (chosen c n).Steady c.platform c.inst c.address d due) ∧ (chosen c n).Within b ∧
      Fresh c (chosen c n) := by
  obtain ⟨e, e', hchosen, he, he'⟩ := h.chosen_eq hc
  have hdw := hw.dodags _ _ h.steady.find
  have hd := h.steady.paced
  have hfind : (chosen c n).dodags.find? c.inst = some e' := by
    rw [hchosen]
    simp [Node.putDodag]
  have halarms : (chosen c n).alarms = n.alarms := by rw [hchosen]; rfl
  have hnone (q : Purpose) (hq : q ≠ .advertise c.inst) : n.alarms.deadline? q = none :=
    Option.eq_none_iff_forall_ne_some.2 fun e he => hq (h.alarms q e he)
  refine ⟨⟨e', hfind, ?_, ?_, ?_⟩, ?_, ?_, ?_, ?_, ?_⟩
  · subst he' he
    exact ⟨hd.valid, hd.min_le, hd.le_max, hd.phase, hd.jitter_pos, hd.pending⟩
  · rw [halarms]
    exact h.steady.due
  · rw [halarms]
    exact h.steady.only
  · have hew : e.Within b := by
      rw [he]
      exact ⟨hdw.intervals, hdw.sent, hdw.received, hdw.suppressed⟩
    have hew' : e'.Within b := by
      rw [he']
      exact ⟨hew.intervals, hew.sent, hew.received, hew.suppressed⟩
    rw [hchosen]
    exact (hw.putDodag hew).putDodag hew'
  · rw [track_of_find? hfind, halarms, hnone _ (by simp), hnone _ (by simp), he', he]
    simp
  · rw [hchosen]
    exact h.samples
  · rw [hchosen]
    exact h.missed
  · rw [hchosen]
    exact h.probes

/-- The start does not stop, and parent and child are linked from then on. -/
theorem start_linked (hc : c.Sound) (source source' : ρ) (ready : Bool) :
    (start c source source' ready).FinishesBelow 2 ∧
      ∀ s, start c source source' ready = .ok s → Linked c 0 s ∧ Fresh c s.child ∧
        s.received = [] := by
  obtain ⟨hfinish, hparent⟩ := join_finishes hc source true
  obtain ⟨hfinish', hchild⟩ := join_finishes hc source' ready
  refine ⟨.bind hfinish fun _ _ => .bind hfinish' fun _ _ => .ok _, ?_⟩
  intro s h
  obtain ⟨parent, hp, h⟩ := Checked.bind_eq_ok_iff.1 h
  obtain ⟨child, hch, h⟩ := Checked.bind_eq_ok_iff.1 h
  rw [← Except.ok.inj h]
  obtain ⟨d, due, hd⟩ := joined_of_join hc hp
  obtain ⟨d', due', hd'⟩ := joined_of_join hc hch
  obtain ⟨⟨e, hsteady⟩, hwithin, hfresh⟩ := hd'.fresh hc (hchild child hch)
  have htracks : (chosen c child.state).SoundTracks := by
    have hjoin : child.state.SoundTracks := by
      have hvalid : Moment.Valid c.platform
          ⟨.new source' .zero ready, .request (.join c.inst c.params) .zero, child.state⟩ :=
        .request (by simp) hch
      exact hvalid.soundTracks (soundTracks_new source' .zero ready)
    have hadd : (addParent c.platform child.state c.inst c.address).state.SoundTracks := by
      have hvalid : Moment.Valid c.platform ⟨child.state,
          .request (.addParent c.inst c.address) .zero,
          (addParent c.platform child.state c.inst c.address).state⟩ := .request (by simp) rfl
      exact hvalid.soundTracks hjoin
    have hvalid : Moment.Valid c.platform
        ⟨(addParent c.platform child.state c.inst c.address).state,
          .request (.command (.setPreferred c.inst (some c.address))) .zero,
          chosen c child.state⟩ := .request (by simp) rfl
    exact hvalid.soundTracks hadd
  refine ⟨⟨rfl, ⟨d, due, hd.announcing hc⟩, hparent parent hp,
    ⟨⟨e, due', hsteady⟩, htracks, fun q e _ => Nat.zero_le _, hwithin⟩, Nat.le_refl 0,
    ⟨rfl, .nil, by simp, by simp, by simp, by simp, fun _ => rfl⟩⟩, hfresh, rfl⟩

/-- No tick stops, unless a counter is full, and parent and child are linked after all of them. -/
theorem run_linked (hc : c.Sound) (source source' : ρ) (ready : Bool) (hk : k ≤ maxTicks) :
    (run c source source' ready k).FinishesBelow (9 * k + 2) ∧
      ∀ s, run c source source' ready k = .ok s → Linked c k s := by
  induction k with
  | zero =>
    obtain ⟨hfinish, hstart⟩ := start_linked hc source source' ready
    exact ⟨hfinish, fun s hs => (hstart s hs).1⟩
  | succ k ih =>
    obtain ⟨hfinish, hrun⟩ := ih (by omega)
    refine ⟨.bind (hfinish.mono (by omega)) fun s hs => ((hrun s hs).tick hc hk).1, ?_⟩
    intro s h
    obtain ⟨s₀, hs₀, h⟩ := Checked.bind_eq_ok_iff.1 h
    exact ((hrun s₀ hs₀).tick hc hk).2 s h

/-! ## Frames that were received -/

section Received

variable {sent inFlight received rs ts : List Frame}

omit [RandomSource ρ] in
/-- A frame that was received is one that was sent. -/
theorem Traffic.received_frame {j : Nat} (h : Traffic c now sent inFlight received)
    (horder : sent.Pairwise fun f g => f.arrival ≤ g.arrival) (hf : received[j]? = some f) :
    f.arrival = f.sentAt + c.delay j ∧ f.Sensible c.platform c.params := by
  refine (h.frame j f ?_).2
  rw [h.order horder, List.getElem?_append_left (List.getElem?_eq_some_iff.1 hf).1]
  exact hf

omit [RandomSource ρ] in
/-- Each frame that was received follows the one received before. -/
theorem Traffic.consecutive (h : Traffic c now sent inFlight (rs ++ f :: g :: ts))
    (horder : sent.Pairwise fun f g => f.arrival ≤ g.arrival) :
    f.Follows g.toAdvert ∧ f.arrival = f.sentAt + c.delay rs.length ∧
      g.arrival = g.sentAt + c.delay (rs.length + 1) ∧ f.Sensible c.platform c.params ∧
      g.Sensible c.platform c.params := by
  have hchain := h.follows
  rw [h.order horder] at hchain
  have hfollows : f.Follows g.toAdvert := by
    simp only [List.append_assoc, List.cons_append] at hchain
    exact (List.isChain_cons_cons.1 (List.isChain_append.1 hchain).2.1).1
  have hf : (rs ++ f :: g :: ts)[rs.length]? = some f := by simp
  have hg : (rs ++ f :: g :: ts)[rs.length + 1]? = some g := by simp
  obtain ⟨hfarrival, hfsensible⟩ := h.received_frame horder hf
  obtain ⟨hgarrival, hgsensible⟩ := h.received_frame horder hg
  exact ⟨hfollows, hfarrival, hgarrival, hfsensible, hgsensible⟩

end Received

omit [RandomSource ρ] in
/-- The frame after the last one received is still to come. -/
theorem Linked.now_le_next (hs : Linked c k s) (horder : s.InOrder)
    (hf : s.received.getLast? = some f) :
    k ≤ f.sentAt.ticks + f.lookahead.delay.ticks + f.lookahead.listen.ticks +
      (c.delay s.received.length).ticks := by
  have hsent := hs.traffic.order horder
  have hnow := hs.now_eq
  cases hflight : s.inFlight with
  | nil =>
    -- The parent is about to send it.
    rw [hflight, List.append_nil] at hsent
    obtain ⟨d, due, hn⟩ := hs.parent
    rw [hsent, hf, Option.map_some] at hn
    have hdue := Instant.le_iff.1 hn.ready
    rcases hn.sent with ⟨-, hb⟩ | ⟨x, hx, -, -, -, hfollows, -⟩
    · cases hphase : d.phase with
      | idle => exact absurd hphase hn.steady.paced.phase
      | listen =>
        obtain ⟨heq, -⟩ := hb.listening hphase _ rfl
        rw [heq] at hdue
        simp only [Instant.ticks_add] at hdue
        omega
      | jitter =>
        obtain ⟨t, hlast, heq⟩ := hb.waiting hphase
        have hadvert : f.toAdvert = ⟨t, d.lookahead⟩ := Option.some.inj hlast
        have hsentAt : f.sentAt = t := congrArg Advert.sentAt hadvert
        have hdelay : f.lookahead.delay = d.jitter := congrArg (·.lookahead.delay) hadvert
        rw [heq, ← hsentAt, ← hdelay, Instant.ticks_add] at hdue
        omega
    · have hsentAt := (hfollows _ rfl).sentAt
      rw [hx] at hsentAt
      omega
  | cons g rest =>
    -- It is in flight.
    rw [hflight] at hsent
    have hg : s.sent[s.received.length]? = some g := by
      rw [hsent]
      simp
    have hchain := hs.traffic.follows
    rw [hsent] at hchain
    have hfollows : f.Follows g.toAdvert :=
      (List.isChain_append.1 hchain).2.2 f hf g rfl
    have hahead := hs.traffic.ahead g (by rw [hflight]; exact List.mem_cons_self)
    rw [(hs.traffic.frame _ _ hg).2.1, Instant.le_iff, Instant.ticks_add, hfollows.sentAt] at hahead
    omega

end TrickleNet.Pair
