import Mathlib
import TrickleNet.Proofs.Debounce
import TrickleNet.Proofs.Tempo
/-!
# The maintenance ticker keeps its grid

The ticker rings once in every period of the platform, counted from the instant at which it was
restarted.  Each tick is armed from the deadline of the one before (`rang_upkeep`), and nothing but
a restart or the ticker itself touches its slot, so it makes no difference how late a tick is
noticed.  `OnGrid` says where on its grid a ticker is, and `OnGrid.snoc` that every event keeps it
there.

What a tick does for the routing table is `Ages`; no other event makes a call to the routing table
(`Moment.Valid.sameUpkeep`).
-/

namespace TrickleNet.Node

variable {ρ : Type} {p : Platform} {n m k : Node ρ} {x : Moment ρ} {i : InstanceId} {a : Address}
  {d : Dodag} {now e : Instant} {ms : List (Moment ρ)}

namespace Moment

/-- The maintenance ticker rings. -/
def ticks (x : Moment ρ) : Bool :=
  match x.event with
  | .ring ⟨.upkeep, _⟩ => true
  | _ => false

/-- The maintenance ticker is restarted. -/
def restartsUpkeep (x : Moment ρ) : Bool :=
  match x.event with
  | .request (.command .restartUpkeep) _ => true
  | _ => false

theorem ticks_iff : x.ticks = true ↔ ∃ e, x.event = .ring ⟨.upkeep, e⟩ := by
  constructor
  · intro h
    unfold ticks at h
    split at h
    · rename_i e hevent
      exact ⟨e, hevent⟩
    · cases h
  · rintro ⟨e, hevent⟩
    rw [ticks, hevent]

theorem restartsUpkeep_iff :
    x.restartsUpkeep = true ↔ ∃ now, x.event = .request (.command .restartUpkeep) now := by
  constructor
  · intro h
    unfold restartsUpkeep at h
    split at h
    · rename_i now hevent
      exact ⟨now, hevent⟩
    · cases h
  · rintro ⟨now, hevent⟩
    rw [restartsUpkeep, hevent]

end Moment

/-! ## What a tick does for the routing table -/

/-- How often the ranks of an instance were recomputed. -/
def recomputedFor (n : Node ρ) (i : InstanceId) : Nat := (n.upkeep.recomputed.find? i).getD 0

/-- Stale routes are purged once, and then the ranks of each instance that is joined are recomputed
once, in the order of the instances.  The table is not called for anything else. -/
structure Ages (n m : Node ρ) : Prop where
  purges : m.upkeep.purges = n.upkeep.purges + 1
  /-- The latest call comes first. -/
  calls : m.upkeep.calls =
    (n.dodags.keys.map RouteCall.recompute).reverse ++ .purge :: n.upkeep.calls
  recomputed : ∀ i, m.recomputedFor i = n.recomputedFor i + if n.dodags.contains i then 1 else 0

theorem recomputedFor_eq_count (n : Node ρ) (i : InstanceId) :
    n.recomputedFor i = n.upkeep.calls.count (.recompute i) := by
  rw [recomputedFor, RouteUpkeep.recomputed]
  induction n.upkeep.calls with
  | nil => rfl
  | cons c calls ih =>
    rw [List.foldr_cons]
    cases c with
    | purge => simpa [RouteUpkeep.countRecompute] using ih
    | recompute j =>
      rw [RouteUpkeep.countRecompute, Table.find?_insert, List.count_cons]
      by_cases hij : i = j
      · subst hij
        simp [ih]
      · simp [hij, Ne.symm hij, ih]

/-- The counts of a tick follow from its calls. -/
theorem Ages.of_calls (hpurges : m.upkeep.purges = n.upkeep.purges + 1)
    (hcalls : m.upkeep.calls =
      (n.dodags.keys.map RouteCall.recompute).reverse ++ .purge :: n.upkeep.calls) : n.Ages m := by
  refine ⟨hpurges, hcalls, fun i => ?_⟩
  have hinj : Function.Injective RouteCall.recompute := fun _ _ h => RouteCall.recompute.inj h
  have hkeys : (n.dodags.keys.map RouteCall.recompute).count (.recompute i) =
      if n.dodags.contains i then 1 else 0 := by
    rw [List.count_map_of_injective _ _ hinj, (Table.nodup_keys n.dodags).count]
    simp only [Table.mem_keys_iff]
  rw [recomputedFor_eq_count, recomputedFor_eq_count, hcalls, List.count_append, List.count_reverse,
    hkeys, List.count_cons_of_ne (by simp), Nat.add_comm]

/-- A solicitation leaves the routing table alone. -/
theorem upkeep_of_solicitDetached (h : solicitDetached p n = .ok m) : m.upkeep = n.upkeep := by
  rcases solicitDetached_eq_ok h with ⟨-, k, hk, hm⟩ | ⟨-, rfl⟩
  · obtain ⟨-, rfl⟩ := count_eq_ok hk
    obtain ⟨outbox, counts, rfl⟩ := send_unchanged hm
    rfl
  · rfl

theorem ages_of_upkeepRings {alarms : AlarmTable} (h : upkeepRings p { n with alarms } = .ok m) :
    n.Ages m := by
  obtain ⟨k, l, hk, hl, rfl⟩ := upkeepRings_eq_ok h
  obtain ⟨upkeep, hpurges, hcalls, rfl⟩ := ageRoutes_eq_ok hk
  have hsame : l.upkeep = upkeep := upkeep_of_solicitDetached hl
  exact .of_calls ((congrArg RouteUpkeep.purges hsame).trans hpurges)
    ((congrArg RouteUpkeep.calls hsame).trans hcalls)

/-! ## What the other events leave alone -/

/-- What only the ticker changes is as before: the calls made to the routing table, and the ticks
counted since the last solicitation. -/
structure SameUpkeep (n m : Node ρ) : Prop where
  upkeep : m.upkeep = n.upkeep
  sinceSolicit : m.sinceSolicit = n.sinceSolicit

theorem SameUpkeep.refl (n : Node ρ) : n.SameUpkeep n := ⟨rfl, rfl⟩

theorem SameUpkeep.trans (h : n.SameUpkeep m) (h' : m.SameUpkeep k) : n.SameUpkeep k :=
  ⟨h'.upkeep.trans h.upkeep, h'.sinceSolicit.trans h.sinceSolicit⟩

/-- The step before changes nothing that the ticker keeps. -/
theorem SameUpkeep.after (h : m.SameUpkeep k) (hupkeep : m.upkeep = n.upkeep)
    (hsince : m.sinceSolicit = n.sinceSolicit) : n.SameUpkeep k :=
  ⟨h.upkeep.trans hupkeep, h.sinceSolicit.trans hsince⟩

theorem sameUpkeep_sendProbe (h : n.sendProbe i a = .ok m) : n.SameUpkeep m := by
  obtain ⟨outbox, counts, trace, rfl⟩ := sendProbe_unchanged h
  exact ⟨rfl, rfl⟩

/-! ### Requests -/

theorem sameUpkeep_leave : n.SameUpkeep (n.leave i).state := by
  unfold leave
  split <;> exact ⟨rfl, rfl⟩

theorem sameUpkeep_addParent : n.SameUpkeep (addParent p n i a).state := by
  unfold addParent
  split
  · exact .refl n
  split
  · exact .refl n
  split <;> exact ⟨rfl, rfl⟩

theorem sameUpkeep_removeParent : n.SameUpkeep (n.removeParent i a).state := by
  unfold removeParent
  split
  · exact .refl n
  split <;> exact ⟨rfl, rfl⟩

theorem sameUpkeep_setPreferred {b : Option Address} : n.SameUpkeep (n.setPreferred i b).state := by
  unfold setPreferred
  split
  · exact .refl n
  split
  · exact .refl n
  split
  · exact .refl n
  split <;> exact ⟨rfl, rfl⟩

theorem sameUpkeep_dioConsistent : n.SameUpkeep (n.dioConsistent i).state := by
  unfold dioConsistent
  split <;> exact ⟨rfl, rfl⟩

theorem sameUpkeep_scheduleReception {delay listen jitter : Span} :
    n.SameUpkeep (n.scheduleReception i a delay listen jitter now).state := by
  unfold scheduleReception
  split
  · exact .refl n
  split
  · exact .refl n
  split <;> exact ⟨rfl, rfl⟩

theorem sameUpkeep_dioReceived {l : Lookahead} {out : Outcome (Node ρ)}
    (h : dioReceived p n i a l now = .ok out) : n.SameUpkeep out.state := by
  by_cases hp : (n.track i a).preferred ∧ (n.track i a).watch.isSome
  swap
  · rw [dioReceived_of_not_preferred hp h]
    exact .refl n
  obtain ⟨w, hw⟩ := Option.isSome_iff_exists.1 hp.2
  obtain ⟨d, hd, hpref, hfind⟩ := dodag_of_track hp.1 hw
  rw [dioReceived_eq hd hpref hfind] at h
  cases hr : w.reception l.listen (l.jitter + p.receptionSkew) now with
  | first =>
    simp only [hr] at h
    rw [← Except.ok.inj h, firstHeard]
    refine SameUpkeep.trans ?_ sameUpkeep_scheduleReception
    split <;> exact ⟨rfl, rfl⟩
  | answer =>
    simp only [hr] at h
    rw [← Except.ok.inj h]
    exact ⟨rfl, rfl⟩
  | late =>
    simp only [hr] at h
    obtain ⟨latency, -, h⟩ := Checked.bind_eq_ok_iff.1 h
    obtain ⟨k, hk, h⟩ := Checked.bind_eq_ok_iff.1 h
    rw [← Except.ok.inj h]
    obtain ⟨-, rfl⟩ := count_eq_ok hk
    exact sameUpkeep_scheduleReception.after rfl rfl
  | repeated =>
    simp only [hr] at h
    rw [← Except.ok.inj h]
    exact sameUpkeep_scheduleReception
  | early | overlooked =>
    simp only [hr] at h
    rw [← Except.ok.inj h]
    exact ⟨rfl, rfl⟩

theorem sameUpkeep_solicit {out : Outcome (Node ρ)} (h : n.solicit i = .ok out) :
    n.SameUpkeep out.state := by
  unfold solicit at h
  split at h
  · rw [← Except.ok.inj h]
    exact .refl n
  split at h
  · rw [← Except.ok.inj h]
    exact .refl n
  · obtain ⟨k, hk, h⟩ := Checked.bind_eq_ok_iff.1 h
    rw [← Except.ok.inj h]
    exact (sameUpkeep_sendProbe hk).after rfl rfl

section Draws

variable [RandomSource ρ]

theorem sameUpkeep_beginInterval (h : beginInterval p n i now = .ok m) : n.SameUpkeep m := by
  cases hd : n.dodags.find? i with
  | none =>
    simp only [beginInterval, hd] at h
    rw [← Except.ok.inj h]
    exact .refl n
  | some d =>
    obtain ⟨split, d', source, -, rfl⟩ := beginInterval_eq_ok hd h
    exact ⟨rfl, rfl⟩

theorem sameUpkeep_resetDio {force : Bool} {out : Outcome (Node ρ)}
    (h : resetDio p n i force now = .ok out) : n.SameUpkeep out.state := by
  rcases resetDio_eq_ok h with hsame | ⟨d, k, -, hk, hbegin⟩
  · rw [hsame]
    exact .refl n
  · obtain ⟨-, rfl⟩ := count_eq_ok hk
    exact (sameUpkeep_beginInterval hbegin).after rfl rfl

theorem sameUpkeep_join {params : TrickleParams} {out : Outcome (Node ρ)}
    (h : join p n i params now = .ok out) : n.SameUpkeep out.state := by
  unfold join at h
  split at h
  · rw [← Except.ok.inj h]
    exact .refl n
  split at h
  · rw [← Except.ok.inj h]
    exact .refl n
  split at h
  · rw [← Except.ok.inj h]
    exact .refl n
  · exact (sameUpkeep_resetDio h).after rfl rfl

theorem sameUpkeep_scheduleDao {out : Outcome (Node ρ)} (h : scheduleDao p n i now = .ok out) :
    n.SameUpkeep out.state := by
  rcases scheduleDao_eq_ok h with ⟨-, rfl⟩ | ⟨-, ⟨-, rfl⟩ | ⟨-, source, delay, -, rfl⟩⟩ <;>
    exact ⟨rfl, rfl⟩

/-- Only a restart of the ticker has to do with what it counts. -/
theorem sameUpkeep_perform {o : Operation} {out : Outcome (Node ρ)} (ho : o ≠ .handleTimer)
    (hrestart : o ≠ .command .restartUpkeep) (h : n.perform p o now = .ok out) :
    n.SameUpkeep out.state := by
  cases o with
  | join i params => exact sameUpkeep_join h
  | leave i =>
    rw [← Except.ok.inj h]
    exact sameUpkeep_leave
  | addParent i a =>
    rw [← Except.ok.inj h]
    exact sameUpkeep_addParent
  | removeParent i a =>
    rw [← Except.ok.inj h]
    exact sameUpkeep_removeParent
  | scheduleReception i a delay listen jitter =>
    rw [← Except.ok.inj h]
    exact sameUpkeep_scheduleReception
  | handleTimer => exact absurd rfl ho
  | command c =>
    cases c with
    | resetDio i force => exact sameUpkeep_resetDio h
    | scheduleDao i => exact sameUpkeep_scheduleDao h
    | dioConsistent i =>
      rw [← Except.ok.inj h]
      exact sameUpkeep_dioConsistent
    | dioReceived i a l => exact sameUpkeep_dioReceived h
    | setPreferred i b =>
      rw [← Except.ok.inj h]
      exact sameUpkeep_setPreferred
    | solicit i => exact sameUpkeep_solicit h
    | restartUpkeep => exact absurd rfl hrestart

end Draws

/-! ### Alarms -/

theorem sameUpkeep_reportRings (h : reportRings p n i now = .ok m) : n.SameUpkeep m := by
  rcases reportRings_eq_ok h with ⟨-, -, k, hk, rfl⟩ | ⟨-, ⟨-, rfl⟩ | ⟨d, -, hmade⟩⟩
  · obtain ⟨-, rfl⟩ := count_eq_ok hk
    exact ⟨rfl, rfl⟩
  · exact .refl m
  · rcases hmade with ⟨a, k, l, -, hk, hl, rfl⟩ | ⟨-, rfl⟩
    · obtain ⟨-, rfl⟩ := count_eq_ok hk
      obtain ⟨outbox, counts, rfl⟩ := send_unchanged hl
      exact ⟨rfl, rfl⟩
    · exact ⟨rfl, rfl⟩

theorem sameUpkeep_takeDecision (h : n.takeDecision i d now = .ok m) : n.SameUpkeep m := by
  rcases takeDecision_eq_ok h with ⟨-, -, k, hk, rfl⟩ | ⟨-, -, rfl⟩
  · obtain ⟨outbox, counts, rfl⟩ := send_unchanged hk
    exact ⟨rfl, rfl⟩
  · exact ⟨rfl, rfl⟩

variable [RandomSource ρ]

theorem sameUpkeep_advertiseRings (h : advertiseRings p n i now = .ok m) : n.SameUpkeep m := by
  rcases advertiseRings_eq_ok h with ⟨-, k, hk, rfl⟩ | ⟨-, ⟨-, rfl⟩ | ⟨d, -, hturn⟩⟩
  · obtain ⟨-, rfl⟩ := count_eq_ok hk
    exact ⟨rfl, rfl⟩
  · exact ⟨rfl, rfl⟩
  · rcases hturn with ⟨-, hdecision⟩ | ⟨-, hend⟩
    · exact (sameUpkeep_takeDecision hdecision).after rfl rfl
    · exact (sameUpkeep_beginInterval hend).after rfl rfl

theorem sameUpkeep_armProbe : n.SameUpkeep (armProbe p n i a now) := by
  obtain ⟨source, after, -, heq⟩ := armProbe_eq p n i a now
  rw [heq]
  exact ⟨rfl, rfl⟩

theorem sameUpkeep_watchRings (h : watchRings p n i a now = .ok m) : n.SameUpkeep m := by
  rcases watchRings_eq_ok h with ⟨rfl, -⟩ | ⟨d, w, k, -, -, -, hk, rfl⟩
  · exact .refl m
  · obtain ⟨-, rfl⟩ := count_eq_ok hk
    exact sameUpkeep_armProbe.after rfl rfl

theorem sameUpkeep_probeRings (h : probeRings p n i a now = .ok m) : n.SameUpkeep m := by
  rcases probeRings_eq_ok h with ⟨rfl, -⟩ | ⟨-, -, k, hk, rfl⟩
  · exact .refl m
  · exact (sameUpkeep_sendProbe hk).trans sameUpkeep_armProbe

theorem sameUpkeep_handleRing {r : Ring} (hr : r.purpose ≠ .upkeep) (h : handleRing p n r = .ok m) :
    n.SameUpkeep m := by
  obtain ⟨q, due⟩ := r
  cases q with
  | upkeep => exact absurd rfl hr
  | advertise i => exact sameUpkeep_advertiseRings h
  | report i => exact sameUpkeep_reportRings h
  | watch i a => exact sameUpkeep_watchRings h
  | probe i a => exact sameUpkeep_probeRings h

/-! ## Every event of a run -/

/-- What the ticker keeps changes only where it rings or is restarted. -/
theorem Moment.Valid.sameUpkeep (h : x.Valid p) (hticks : x.ticks = false)
    (hrestarts : x.restartsUpkeep = false) : x.before.SameUpkeep x.after := by
  cases h with
  | request ho hout =>
    refine sameUpkeep_perform ho ?_ hout
    rintro rfl
    cases hrestarts
  | @ring n m now r alarms hring hm =>
    have hr : r.purpose ≠ .upkeep := by
      obtain ⟨q, due⟩ := r
      rintro rfl
      cases hticks
    exact (sameUpkeep_handleRing hr hm).after rfl rfl
  | settled => exact .refl _

/-- A tick ages the routes. -/
theorem Moment.Valid.ages (h : x.Valid p) (hticks : x.ticks = true) : x.before.Ages x.after := by
  obtain ⟨e, hevent⟩ := ticks_iff.1 hticks
  exact ages_of_upkeepRings (h.rang hevent).2

omit [RandomSource ρ] in
/-- Only the ticker itself and a restart may touch its slot. -/
theorem upkeep_notMem_footprint (hticks : x.ticks = false) (hrestarts : x.restartsUpkeep = false) :
    .upkeep ∉ x.event.footprint.alarms := by
  cases hevent : x.event with
  | request o now =>
    cases o with
    | command c =>
      cases c with
      | restartUpkeep => simp [Moment.restartsUpkeep, hevent] at hrestarts
      | resetDio | scheduleDao | dioConsistent | dioReceived | setPreferred | solicit => simp
    | join | leave | addParent | removeParent | scheduleReception | handleTimer =>
      simp [Purpose.inst?]
  | ring r =>
    obtain ⟨q, due⟩ := r
    cases q with
    | upkeep => simp [Moment.ticks, hevent] at hticks
    | advertise | report | watch | probe => simp
  | settled => simp

/-- A restart sets the ticker for one period later. -/
theorem Moment.Valid.restarts (h : x.Valid p)
    (hevent : x.event = .request (.command .restartUpkeep) now) :
    x.after = restartUpkeep p x.before now := by
  obtain ⟨-, out, hout, hafter⟩ := h.performed hevent
  rw [hafter, ← Except.ok.inj hout]
  rfl

/-! ## The grid -/

omit [RandomSource ρ] in
/-- A ticker that was restarted at `t₀`, after as many ticks as the record `ms` since shows. -/
structure OnGrid (p : Platform) (t₀ : Nat) (ms : List (Moment ρ)) (n : Node ρ) : Prop where
  due : n.alarms.deadline? .upkeep =
    some (.ofTicks (t₀ + (ms.countP Moment.ticks + 1) * p.upkeepInterval.ticks))
  calls_lt : ∀ c ∈ calls ms, c < t₀ + (ms.countP Moment.ticks + 1) * p.upkeepInterval.ticks
  /-- The last tick was due on the grid. -/
  rang : ms.countP Moment.ticks = 0 ∨ ∃ x ∈ ms, ∃ r, x.event = .ring r ∧
    r.deadline.ticks = t₀ + ms.countP Moment.ticks * p.upkeepInterval.ticks

variable {t₀ : Nat}

omit [RandomSource ρ] in
theorem onGrid_restart :
    OnGrid p now.ticks ([] : List (Moment ρ)) (restartUpkeep p n now) where
  due := by
    refine (AlarmTable.deadline?_set.trans (if_pos rfl)).trans ?_
    rw [List.countP_nil, Nat.zero_add, Nat.one_mul]
    rfl
  calls_lt c hc := by cases hc
  rang := .inl rfl

/-- A call that finds no alarm due has not come past the next tick. -/
theorem OnGrid.calls_concat (h : OnGrid p t₀ ms x.before) (hx : x.Valid p) :
    ∀ c ∈ calls (ms ++ [x]), c < t₀ + (ms.countP Moment.ticks + 1) * p.upkeepInterval.ticks := by
  intro c hc
  rw [calls_append] at hc
  rcases List.mem_append.1 hc with hc | hc
  · exact h.calls_lt c hc
  · exact (hx.call_lt_deadline h.due c hc).trans_le (Nat.min_le_left _ _)

/-- Every event but a restart keeps the ticker on its grid. -/
theorem OnGrid.snoc (h : OnGrid p t₀ ms x.before) (hx : x.Valid p) (hn : x.before.Orderly p)
    (hrestarts : x.restartsUpkeep = false)
    (hlast : ∀ r, x.event = .ring r → r.deadline.ticks < maxTicks) :
    OnGrid p t₀ (ms ++ [x]) x.after := by
  have hcalls := h.calls_concat hx
  cases hticks : x.ticks with
  | false =>
    have hcount : (ms ++ [x]).countP Moment.ticks = ms.countP Moment.ticks := by
      rw [List.countP_append, List.countP_singleton, hticks]
      rfl
    refine ⟨?_, ?_, ?_⟩
    · rw [hcount, hx.confined.deadline? (upkeep_notMem_footprint hticks hrestarts), h.due]
    · rwa [hcount]
    · rw [hcount]
      refine h.rang.imp_right ?_
      rintro ⟨y, hy, hring⟩
      exact ⟨y, List.mem_append_left _ hy, hring⟩
  | true =>
    obtain ⟨e, hevent⟩ := Moment.ticks_iff.1 hticks
    obtain ⟨hdue, hring⟩ := hx.rang hevent
    have hlt : e.ticks < maxTicks := hlast _ hevent
    -- A deadline below the last instant was not clamped.
    have he : e.ticks = t₀ + (ms.countP Moment.ticks + 1) * p.upkeepInterval.ticks := by
      obtain rfl := Option.some.inj (hdue.symm.trans h.due)
      rw [Instant.ticks_ofTicks] at hlt ⊢
      omega
    have hcount : (ms ++ [x]).countP Moment.ticks = ms.countP Moment.ticks + 1 := by
      rw [List.countP_append, List.countP_singleton, hticks]
      rfl
    have hnext : e.ticks + p.upkeepInterval.ticks =
        t₀ + (ms.countP Moment.ticks + 1 + 1) * p.upkeepInterval.ticks := by
      rw [he, Nat.add_assoc, ← Nat.succ_mul]
    refine ⟨?_, ?_, .inr ⟨x, List.mem_append_right _ List.mem_cons_self, _, hevent, ?_⟩⟩
    · obtain ⟨-, halarms⟩ : x.after.dodags = x.before.dodags ∧
          x.after.alarms = x.before.alarms.set .upkeep e p.upkeepInterval := by
        cases rang_upkeep hn hdue hring with
        | ticked hdodags halarms => exact ⟨hdodags, halarms⟩
      rw [halarms, AlarmTable.deadline?_set, if_pos rfl, hcount, ← hnext]
      rfl
    · intro c hc
      rw [hcount, ← hnext]
      have hle := hcalls c hc
      omega
    · rw [hcount]
      exact he

/-- A ticker stays on its grid until it is restarted. -/
theorem Trail.onGrid (h : Trail p n ms k) (hs : n.SoundTracks) (hn : n.Orderly p)
    (hgrid : OnGrid p t₀ ([] : List (Moment ρ)) n) (honce : ∀ x ∈ ms, x.restartsUpkeep = false)
    (hlast : ∀ x ∈ ms, ∀ r, x.event = .ring r → r.deadline.ticks < maxTicks) :
    OnGrid p t₀ ms k := by
  refine h.orderly_induction (motive := fun ms k => (∀ x ∈ ms, x.restartsUpkeep = false) →
    (∀ x ∈ ms, ∀ r, x.event = .ring r → r.deadline.ticks < maxTicks) → OnGrid p t₀ ms k)
    (fun _ _ => hgrid) ?_ ?_ hs hn honce hlast
  · intro ms n m hsame ih honce hlast
    obtain ⟨hdue, hcalls, hrang⟩ := ih honce hlast
    exact ⟨by rw [hsame.alarms, hdue], hcalls, hrang⟩
  · intro ms x hx hn ih honce hlast
    have hx' : x ∈ ms ++ [x] := List.mem_append_right _ List.mem_cons_self
    refine (ih (fun y hy => ?_) fun y hy => ?_).snoc hx hn (honce x hx') (hlast x hx')
    · exact honce y (List.mem_append_left _ hy)
    · exact hlast y (List.mem_append_left _ hy)

omit [RandomSource ρ] in
/-- The time of the latest call that let alarms ring, zero if there was none. -/
def latestCall (ms : List (Moment ρ)) : Nat := (calls ms).foldr max 0

omit [RandomSource ρ] in
/-- The ticks on a grid are as many as periods have passed up to the latest call. -/
theorem OnGrid.count_eq (h : OnGrid p t₀ ms n) (hanswered : Answered ms)
    (hperiod : 1 ≤ p.upkeepInterval.ticks) :
    ms.countP Moment.ticks = (latestCall ms - t₀) / p.upkeepInterval.ticks := by
  have hlt : latestCall ms < t₀ + (ms.countP Moment.ticks + 1) * p.upkeepInterval.ticks := by
    have hpos : 0 < (ms.countP Moment.ticks + 1) * p.upkeepInterval.ticks :=
      Nat.mul_pos (Nat.succ_pos _) hperiod
    have hle : latestCall ms ≤ t₀ + (ms.countP Moment.ticks + 1) * p.upkeepInterval.ticks - 1 := by
      refine List.max_le_of_forall_le _ _ fun c hc => ?_
      have hc := h.calls_lt c hc
      omega
    omega
  have hle : ms.countP Moment.ticks * p.upkeepInterval.ticks ≤ latestCall ms - t₀ := by
    rcases h.rang with hzero | ⟨x, hx, r, hevent, hdeadline⟩
    · rw [hzero, Nat.zero_mul]
      exact Nat.zero_le _
    · obtain ⟨c, hc, hcall⟩ := hanswered.le_call hx hevent
      have hlatest : c ≤ latestCall ms := List.le_max_of_le hc (Nat.le_refl c)
      omega
  refine (Nat.div_eq_of_lt_le hle ?_).symm
  have hpos : 0 < (ms.countP Moment.ticks + 1) * p.upkeepInterval.ticks :=
    Nat.mul_pos (Nat.succ_pos _) hperiod
  omega

/-- The maintenance ticker keeps its grid.  In a run that restarts the ticker at `t₀`, not again
since, and lets alarms ring at arbitrary times before the last instant, the ticks since are as many
as whole periods lie between `t₀` and the latest of these times, and none if all of them come before
`t₀`.  The next tick is due one period after them, and each of them was due on the grid, however
late it was noticed and whatever else happened between them.

A tick purges stale routes once and recomputes the ranks once of each instance that is joined when
it rings, and of no other.  Nothing else does. -/
theorem ticker_keeps_grid {source : ρ} {clock : Instant} {ready : Bool} {s : Moment ρ}
    {pre post : List (Moment ρ)} {t₀ : Instant}
    (hrun : Run p (.new source clock ready) (pre ++ s :: post) n)
    (hperiod : 1 ≤ p.upkeepInterval.ticks) (hs : s.event = .request (.command .restartUpkeep) t₀)
    (honce : ∀ x ∈ post, x.restartsUpkeep = false) (hcalls : ∀ c ∈ calls post, c < maxTicks) :
    post.countP Moment.ticks = (latestCall post - t₀.ticks) / p.upkeepInterval.ticks ∧
    n.alarms.deadline? .upkeep =
      some (.ofTicks (t₀.ticks + (post.countP Moment.ticks + 1) * p.upkeepInterval.ticks)) ∧
    (∀ mid x rest, post = mid ++ x :: rest → x.ticks = true → x.event = .ring ⟨.upkeep,
      .ofTicks (t₀.ticks + (mid.countP Moment.ticks + 1) * p.upkeepInterval.ticks)⟩) ∧
    ∀ x ∈ post, (x.ticks = true → x.before.Ages x.after) ∧
      (x.ticks = false → x.after.upkeep = x.before.upkeep) := by
  have hsince : Answered (s :: post) := hrun.answered.of_append
  have hanswered : Answered post := hsince.2
  obtain ⟨hpre, hvalid, hpost⟩ := hrun.trail.cut
  have hsound := hpre.soundTracks (soundTracks_new source clock ready)
  have horderly :=
    hpre.orderly (soundTracks_new source clock ready) (orderly_new p source clock ready)
  have hlast (x : Moment ρ) (hx : x ∈ post) (r : Ring) (hevent : x.event = .ring r) :
      r.deadline.ticks < maxTicks := by
    obtain ⟨c, hc, hle⟩ := hanswered.le_call hx hevent
    exact hle.trans_lt (hcalls c hc)
  have hstart : OnGrid p t₀.ticks ([] : List (Moment ρ)) s.after := by
    rw [hvalid.restarts hs]
    exact onGrid_restart
  have hgrid {mid : List (Moment ρ)} {m : Node ρ} (htrail : Trail p s.after mid m)
      (hmem : ∀ x ∈ mid, x ∈ post) : OnGrid p t₀.ticks mid m :=
    htrail.onGrid (hvalid.soundTracks hsound) (hvalid.orderly hsound horderly) hstart
      (fun x hx => honce x (hmem x hx)) fun x hx => hlast x (hmem x hx)
  have hend := hgrid hpost fun x hx => hx
  refine ⟨hend.count_eq hanswered hperiod, hend.due, ?_, fun x hx => ?_⟩
  · rintro mid x rest rfl hticks
    obtain ⟨hmid, hx, -⟩ := hpost.cut
    obtain ⟨e, hevent⟩ := Moment.ticks_iff.1 hticks
    have hdue := (hgrid hmid fun y hy => List.mem_append_left _ hy).due
    have he : e = .ofTicks (t₀.ticks + (mid.countP Moment.ticks + 1) * p.upkeepInterval.ticks) :=
      Option.some.inj ((hx.rang hevent).1.symm.trans hdue)
    rw [hevent, he]
  · obtain ⟨mid, rest, rfl⟩ := List.append_of_mem hx
    have hx' := hpost.cut.2.1
    exact ⟨hx'.ages, fun hticks => (hx'.sameUpkeep hticks (honce x hx)).upkeep⟩

/-- Requests to a node whose ticker rings once before it is restarted. -/
def tickedOnce : List (Operation × Instant) :=
  [(.command .restartUpkeep, .zero), (.handleTimer, .ofTicks 1500)]

/-- Requests to the same node, which restarts its ticker, joins an instance and leaves it between
calls that come late, and one of which comes out of order. -/
def tickedLate : List (Operation × Instant) :=
  [(.command .restartUpkeep, .ofTicks 1800), (.join 1 {}, .ofTicks 2500),
    (.handleTimer, .ofTicks 4700), (.handleTimer, .ofTicks 2000), (.leave 1, .ofTicks 4900),
    (.handleTimer, .ofTicks 6799)]

/-- The ticker ticks four times in the 4999 ms up to the latest call, twice of them while the
instance is joined, and is due next five periods after it was restarted. -/
theorem ticker_keeps_grid_though_late :
    ∃ (pre post : List (Moment Generator)) (s : Moment Generator) (m n : Node Generator),
      record .millis tickedOnce (.new (.fixed 0) .zero true) = .ok (pre, m) ∧
      record .millis tickedLate m = .ok (s :: post, n) ∧ latestCall post = 6799 ∧
      n.upkeep.purges = 5 ∧ n.recomputedFor 1 = 2 ∧ post.countP Moment.ticks = 4 ∧
      n.alarms.deadline? .upkeep = some (.ofTicks 6800) := by
  obtain ⟨pre, post, s, m, n, hpre, hpost, hrestart, honce, hcalls, hpurges, hrecomputed⟩ :
      ∃ (pre post : List (Moment Generator)) (s : Moment Generator) (m n : Node Generator),
        record .millis tickedOnce (.new (.fixed 0) .zero true) = .ok (pre, m) ∧
        record .millis tickedLate m = .ok (s :: post, n) ∧
        s.event = .request (.command .restartUpkeep) (.ofTicks 1800) ∧
        post.all (fun x => x.restartsUpkeep = false) = true ∧ calls post = [4700, 2000, 6799] ∧
        n.upkeep.purges = 5 ∧ n.recomputedFor 1 = 2 :=
    ⟨_, _, _, _, _, rfl, rfl, rfl, rfl, rfl, rfl, rfl⟩
  have hlatest : latestCall post = 6799 := by
    rw [latestCall, hcalls]
    rfl
  obtain ⟨hcount, hdue, -⟩ := ticker_keeps_grid ((Run.start.record hpre).record hpost) (by decide)
    hrestart (by simpa using honce) (by rw [hcalls]; decide)
  rw [hlatest] at hcount
  have hfour : post.countP Moment.ticks = 4 := hcount
  rw [hfour] at hdue
  exact ⟨pre, post, s, m, n, hpre, hpost, hlatest, hpurges, hrecomputed, hfour, hdue⟩

end TrickleNet.Node
