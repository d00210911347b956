import Mathlib
import TrickleNet.Proofs.Footprint
import TrickleNet.Proofs.Keys
import TrickleNet.Proofs.Rang
import TrickleNet.Sim.Station
/-!
# What a station asks of its node

Apart from letting alarms ring, a station makes only `Operation.Plain` requests: it never leaves an
instance, drops a parent or sends a probe.  `Node.Performs p now n os m` says that the requests `os`
take the node from `n` to `m`, and `Station.Asks i now k t t'` that a call into the station made no
more than `k` plain requests about the instance `i`.

Each call of `TrickleNet.Sim.Station` has a lemma `asks_*` that says how many requests it makes, so
what is true of one plain request is true of all these calls.
-/

namespace TrickleNet

/-- The requests about an instance that a station makes when it hears or is told something. -/
inductive Operation.Plain (i : InstanceId) : Operation → Prop
  | join (params : TrickleParams) : Plain i (.join i params)
  | addParent (a : Address) : Plain i (.addParent i a)
  | setPreferred (a : Address) : Plain i (.command (.setPreferred i (some a)))
  | scheduleDao : Plain i (.command (.scheduleDao i))
  | dioConsistent : Plain i (.command (.dioConsistent i))
  | dioReceived (a : Address) (l : Lookahead) : Plain i (.command (.dioReceived i a l))
  | resetDio : Plain i (.command (.resetDio i false))
  | restartUpkeep : Plain i (.command .restartUpkeep)

theorem Operation.Plain.ne_handleTimer {i : InstanceId} {o : Operation} (h : o.Plain i) :
    o ≠ .handleTimer := by
  rintro rfl
  cases h

/-- A plain request touches one instance and queues no messages. -/
theorem Operation.Plain.footprint {i : InstanceId} {o : Operation} (h : o.Plain i) :
    o.footprint.instances ⊆ {i} ∧ o.footprint.messages = ∅ ∧
    .controlDropped ∉ o.footprint.counters := by
  cases h <;> simp

namespace Node

variable {ρ : Type} [RandomSource ρ] {p : Platform} {now : Instant} {n m k : Node ρ}
  {os os' : List Operation}

/-- Requests are made one after the other, each with the clock set first. -/
inductive Performs (p : Platform) (now : Instant) : Node ρ → List Operation → Node ρ → Prop
  | done {n : Node ρ} (clock : Instant) : Performs p now n [] { n with clock }
  | request {n m : Node ρ} {o : Operation} {out : Outcome (Node ρ)} {os : List Operation} :
      perform p { n with clock := now } o now = .ok out → Performs p now out.state os m →
        Performs p now n (o :: os) m

theorem Performs.append (h : Performs p now n os m) (h' : Performs p now m os' k) :
    Performs p now n (os ++ os') k := by
  induction h with
  | done =>
    -- The clock that was set last does not matter to the requests that follow.
    cases h' with
    | done clock => exact .done clock
    | request hout hrest => exact .request hout hrest
  | request hout _ ih => exact .request hout (ih h')

/-- What no request breaks, and the clock has no part in, holds after them if it holds before. -/
theorem Performs.invariant {I : Node ρ → Prop} (hclock : ∀ n clock, I n → I { n with clock })
    (hstep : ∀ n o out, o ∈ os → I n → n.perform p o now = .ok out → I out.state)
    (h : Performs p now n os m) (hn : I n) : I m := by
  induction h with
  | done => exact hclock _ _ hn
  | @request n m o out os hout _ ih =>
    refine ih (fun n o out ho => hstep n o out (List.mem_cons_of_mem _ ho)) ?_
    exact hstep _ o out List.mem_cons_self (hclock n now hn) hout

theorem Reachable.setClock (hn : Reachable p n) (clock : Instant) :
    Reachable p { n with clock } :=
  hn.sameCore ⟨rfl, rfl, rfl, rfl, rfl, rfl, rfl, rfl⟩

theorem Performs.reachable (h : Performs p now n os m) (hn : Reachable p n) : Reachable p m :=
  h.invariant (fun _ clock hn => hn.setClock clock) (fun _ _ _ _ hn hout => hn.perform hout) hn

/-! ## Calls that let alarms ring -/

variable {ms : List (Moment ρ)} {i : InstanceId}

theorem rung_of_handleTimer (h : handleTimer p n now = .ok m) :
    ∃ ms, Rung p now n ms m ∧ m.alarms.ring? now = none := by
  obtain ⟨_, hrings⟩ := rings_of_handleTimer h
  obtain ⟨ms, -, hrung, hnone⟩ := hrings.rung
  exact ⟨ms, hrung, hnone⟩

/-- Alarms that ring join or leave no instance and choose no parent. -/
theorem Rung.keeps (h : Rung p now n ms m) (hn : n.SoundTracks ∧ n.Orderly p) : n.Keeps p m := by
  induction h with
  | start => exact .refl p _
  | ring hring hm _ ih =>
    obtain ⟨hrang, hm⟩ := ring_orderly hn hring hm
    exact hrang.keeps.trans (ih hm)

/-- Alarms that ring advertise instances that the node belongs to. -/
theorem Rung.joined_of_dio (h : Rung p now n ms m) (hn : n.SoundTracks ∧ n.Orderly p)
    {l : Lookahead} (hdio : .dio i l ∈ m.outbox.toList) :
    .dio i l ∈ n.outbox.toList ∨ n.dodags.contains i = true := by
  induction h with
  | start => exact .inl hdio
  | @ring n m k r alarms ms hring hm _ ih =>
    obtain ⟨hrang, horderly⟩ := ring_orderly hn hring hm
    rcases ih horderly hdio with hdio | hjoined
    swap
    · rw [hrang.keeps.joined] at hjoined
      exact .inr hjoined
    have hvalid : Moment.Valid p ⟨n, .ring r, m⟩ := .ring hring hm
    obtain ⟨new, hnew, hmem⟩ := hvalid.confined.outbox
    rw [show m.outbox.toList = _ from hnew] at hdio
    rcases List.mem_append.1 hdio with hdio | hdio
    · exact .inl hdio
    obtain ⟨hd, -⟩ := AlarmTable.ring?_eq_some hring
    have hown := hn.2.owned _ (AlarmTable.holds_of_deadline? hd)
    have hmsg := hmem _ hdio
    obtain ⟨q, e⟩ := r
    right
    cases q with
    | advertise j =>
      obtain ⟨l', hl'⟩ := hmsg
      obtain ⟨rfl, -⟩ := Control.dio.inj hl'
      exact hown
    | upkeep | watch | probe | report => simp at hmsg

end Node

namespace Station

variable {t t' u : Station} {i : InstanceId} {now : Instant} {k l : Nat} {o : Operation}

/-- A call into the station made no more than `k` plain requests. -/
structure Asks (i : InstanceId) (now : Instant) (k : Nat) (t t' : Station) : Prop where
  address : t'.address = t.address
  wake : t'.wake = t.wake
  node : ∃ os, os.length ≤ k ∧ (∀ o ∈ os, o.Plain i) ∧
    Node.Performs .simulated now t.node os t'.node

theorem Asks.refl (t : Station) : Asks i now 0 t t :=
  ⟨rfl, rfl, [], Nat.le_refl _, by simp, .done t.node.clock⟩

theorem Asks.trans (h : Asks i now k t t') (h' : Asks i now l t' u) : Asks i now (k + l) t u := by
  obtain ⟨os, hlength, hplain, hos⟩ := h.node
  obtain ⟨os', hlength', hplain', hos'⟩ := h'.node
  refine ⟨h'.address.trans h.address, h'.wake.trans h.wake, os ++ os', ?_, fun o ho => ?_,
    hos.append hos'⟩
  · rw [List.length_append]
    omega
  · rcases List.mem_append.1 ho with ho | ho
    · exact hplain o ho
    · exact hplain' o ho

theorem Asks.mono (h : Asks i now k t t') (hle : k ≤ l) : Asks i now l t t' := by
  obtain ⟨os, hlength, hos⟩ := h.node
  exact ⟨h.address, h.wake, os, hlength.trans hle, hos⟩

theorem asks_setClock (t : Station) (clock : Instant) : Asks i now 0 t (t.setClock clock) :=
  ⟨rfl, rfl, [], Nat.le_refl _, by simp, .done clock⟩

theorem asks_hop (t : Station) (hop : Option Nat) : Asks i now 0 t { t with hop } :=
  ⟨rfl, rfl, [], Nat.le_refl _, by simp, .done t.node.clock⟩

theorem asks_perform {out : Outcome Station} (ho : o.Plain i) (h : t.perform o now = .ok out) :
    Asks i now 1 t out.state := by
  obtain ⟨n, hn, h⟩ := Checked.bind_eq_ok_iff.1 h
  cases h
  exact ⟨rfl, rfl, [o], Nat.le_refl _, by simpa using ho, .request hn (.done n.state.clock)⟩

theorem asks_demand (ho : o.Plain i) (h : t.demand o now = .ok t') : Asks i now 1 t t' := by
  obtain ⟨out, hout, h⟩ := Checked.bind_eq_ok_iff.1 h
  cases h
  exact asks_perform ho hout

/-- Another request follows unless the one before was refused. -/
theorem Asks.andThen {o out : Outcome Station} {next : Station → Checked (Outcome Station)}
    (h : Asks i now k t o.state) (hout : o.andThen next = .ok out)
    (hnext : ∀ u v, next u = .ok v → Asks i now l u v.state) : Asks i now (k + l) t out.state := by
  unfold Outcome.andThen at hout
  split at hout
  · cases hout
    exact h.mono (Nat.le_add_right k l)
  · exact h.trans (hnext _ _ hout)

theorem Asks.reachable (h : Asks i now k t t') (ht : t.node.Reachable .simulated) :
    t'.node.Reachable .simulated := by
  obtain ⟨os, -, -, hos⟩ := h.node
  exact hos.reachable ht

/-- The calls that ask about one instance leave the others alone. -/
theorem Asks.find?_eq (h : Asks i now k t t') {j : InstanceId} (hj : j ≠ i) :
    t'.node.dodags.find? j = t.node.dodags.find? j := by
  obtain ⟨os, -, hplain, hos⟩ := h.node
  refine hos.invariant (I := fun n => n.dodags.find? j = t.node.dodags.find? j)
    (fun _ _ h => h) ?_ rfl
  intro n o out ho hn hout
  have hconfined := Node.confined_perform (hplain o ho).ne_handleTimer hout
  rw [← hn]
  exact hconfined.dodags j fun hmem => hj ((hplain o ho).footprint.1 hmem)

/-- Nothing is sent before alarms ring. -/
theorem Asks.outbox_eq (h : Asks i now k t t') : t'.node.outbox.toList = t.node.outbox.toList := by
  obtain ⟨os, -, hplain, hos⟩ := h.node
  refine hos.invariant (I := fun n => n.outbox.toList = t.node.outbox.toList)
    (fun _ _ h => h) ?_ rfl
  intro n o out ho hn hout
  obtain ⟨new, hnew, hmem⟩ := (Node.confined_perform (hplain o ho).ne_handleTimer hout).outbox
  obtain rfl : new = [] := by
    refine List.eq_nil_iff_forall_not_mem.2 fun c hc => ?_
    have hempty := hmem c hc
    rw [(hplain o ho).footprint.2.1] at hempty
    exact hempty
  rw [hnew, List.append_nil, hn]

/-! ## The calls into a station -/

theorem asks_start (h : t.start now = .ok t') : Asks i now 1 t t' := asks_demand .restartUpkeep h

variable {params : TrickleParams} {sender : Address} {senderHop : Nat} {lookahead : Lookahead}
  {out : Outcome Station}

theorem asks_form (h : t.form i params now = .ok out) : Asks i now 1 t out.state := by
  obtain ⟨o, ho, h⟩ := Checked.bind_eq_ok_iff.1 h
  refine (asks_perform (.join params) ho).andThen (l := 0) h fun u v hv => ?_
  cases hv
  exact asks_hop u _

theorem asks_joinThrough (h : t.joinThrough sender senderHop i params now = .ok out) :
    Asks i now 4 t out.state := by
  obtain ⟨o₁, h₁, h⟩ := Checked.bind_eq_ok_iff.1 h
  obtain ⟨o₂, h₂, h⟩ := Checked.bind_eq_ok_iff.1 h
  obtain ⟨o₃, h₃, h⟩ := Checked.bind_eq_ok_iff.1 h
  have hjoin := asks_perform (.join params) h₁
  have hparent := hjoin.andThen (l := 1) h₂ fun u v hv =>
    ((asks_hop u _).trans (asks_perform (.addParent sender) hv)).mono (Nat.le_refl _)
  have hprefer := hparent.andThen h₃ fun u v => asks_perform (.setPreferred sender)
  exact hprefer.andThen h fun u v => asks_perform .scheduleDao

theorem asks_considerSender (h : t.considerSender sender senderHop i params now = .ok out) :
    Asks i now 4 t out.state := by
  unfold considerSender at h
  split at h
  · exact asks_joinThrough h
  split at h
  · obtain ⟨o, ho, h⟩ := Checked.bind_eq_ok_iff.1 h
    have hask := (asks_perform (.addParent sender) ho).mono (l := 4) (by omega)
    cases h
    split
    · exact hask
    · exact hask
  · cases h
    exact (Asks.refl t).mono (Nat.zero_le 4)

theorem asks_heardDio (h : t.heardDio sender senderHop i lookahead params now = .ok out) :
    Asks i now 6 t out.state := by
  obtain ⟨o₁, h₁, h⟩ := Checked.bind_eq_ok_iff.1 h
  obtain ⟨o₂, h₂, h⟩ := Checked.bind_eq_ok_iff.1 h
  have hclock := (asks_setClock t now).trans (asks_considerSender h₁)
  have hconsistent := hclock.andThen h₂ fun u v => asks_perform .dioConsistent
  exact (hconsistent.andThen h fun u v => asks_perform (.dioReceived sender lookahead)).mono
    (by omega)

/-- A solicitation asks for one restart for each instance. -/
theorem asks_heardDis (hsingle : ∀ j, t.node.dodags.contains j = true → j = i)
    (h : t.heardDis now = .ok t') : Asks i now t.node.dodags.size t t' := by
  have hkeys : ∀ j ∈ t.node.dodags.keys, j = i := fun j hj => hsingle j (Table.mem_keys_iff.1 hj)
  have hfold (js : List InstanceId) (hjs : ∀ j ∈ js, j = i) (u v : Station)
      (h : js.foldlM (fun s j => s.demand (.command (.resetDio j false)) now) u = .ok v) :
      Asks i now js.length u v := by
    induction js generalizing u with
    | nil =>
      cases h
      exact .refl _
    | cons j js ih =>
      obtain rfl := hjs j List.mem_cons_self
      rw [List.foldlM_cons] at h
      obtain ⟨w, hw, h⟩ := Checked.bind_eq_ok_iff.1 h
      have hrest := ih (fun j hj => hjs j (List.mem_cons_of_mem _ hj)) w h
      refine ((asks_demand .resetDio hw).trans hrest).mono ?_
      rw [List.length_cons]
      omega
  have hall := (asks_setClock t now).trans (hfold _ hkeys _ _ h)
  rw [Table.length_keys] at hall
  exact hall.mono (by omega)

/-- A report is counted and nothing is asked of the node. -/
theorem asks_heardDao {reported : Bool} (h : t.heardDao sender = .ok (reported, t')) :
    Asks i now 0 t t' := by
  unfold heardDao at h
  split at h
  · obtain ⟨daosReceived, -, h⟩ := Checked.bind_eq_ok_iff.1 h
    cases h
    exact ⟨rfl, rfl, [], Nat.le_refl _, by simp, .done t.node.clock⟩
  · cases h
    exact .refl t

/-- A call that lets alarms ring sets the clock and does so. -/
theorem handleTimer_eq_ok (h : t.handleTimer now = .ok t') :
    ∃ n, Node.handleTimer .simulated { t.node with clock := now } now = .ok n ∧
      t' = { t with node := n } := by
  obtain ⟨out, hout, h⟩ := Checked.bind_eq_ok_iff.1 h
  obtain ⟨o, ho, hout⟩ := Checked.bind_eq_ok_iff.1 hout
  obtain ⟨n, hn, ho⟩ := Checked.bind_eq_ok_iff.1 ho
  cases ho
  cases hout
  cases h
  exact ⟨n, hn, rfl⟩

/-- In such a call alarms of an orderly node ring one after the other, until none is due. -/
theorem rung_of_handleTimer (ht : t.node.Reachable .simulated) (h : t.handleTimer now = .ok t') :
    ∃ n ms, t' = { t with node := n } ∧ n.Reachable .simulated ∧
      Node.Rung .simulated now (t.setClock now).node ms n ∧ n.alarms.ring? now = none ∧
      (t.setClock now).node.SoundTracks ∧ (t.setClock now).node.Orderly .simulated := by
  obtain ⟨n, hn, rfl⟩ := handleTimer_eq_ok h
  obtain ⟨ms, hrung, hnone⟩ := Node.rung_of_handleTimer hn
  have hclock : (t.setClock now).node.Reachable .simulated := ht.setClock now
  have hout : (t.setClock now).node.perform .simulated .handleTimer now = .ok (.granted n) := by
    rw [Node.perform, setClock, hn]
    rfl
  exact ⟨n, ms, rfl, hclock.perform hout, hrung, hnone, hclock.soundTracks, hclock.orderly⟩

end Station

end TrickleNet
