import Mathlib
import TrickleNet.Proofs.Timing
/-!
# The course of a trickle timer

What a record shows of the trickle timer of one instance: the moments at which an interval begins
(`Moment.begins`), at which its decision is taken (`Moment.decides`), at which an advertisement is
heard, and so on.  They are read off the phase of the timer before and after the event.

`Moment.Course` says what each of these moments does to the timer of an instance that is joined, and
`Moment.Valid.course` that there are no others.  `Trail.snoc_induction` is the rule for properties
of a record and of the node at its end, and `Trail.timer_induction` and `Trail.joined_induction` are
what it comes to for the timer of one instance.
-/

namespace TrickleNet.Node

variable {ρ : Type}

/-- The alarm of a trickle timer rings at its deadline. -/
theorem Event.eq_ring_of_signal? {e : Event} {i : InstanceId} {due : Instant}
    (h : e.signal? i = some (.ring due)) : e = .ring ⟨.advertise i, due⟩ := by
  unfold signal? at h
  split at h
  · split at h <;> cases h
  · split at h <;> cases h
  · split at h <;> cases h
  · split at h <;> cases h
  · split at h
    · rename_i hij
      cases h
      rw [hij]
    · cases h
  · cases h

/-- Where the trickle timer of an instance is in its interval. -/
def phase? (n : Node ρ) (i : InstanceId) : Option Phase := (n.dodags.find? i).map Dodag.phase

theorem phase?_eq (n : Node ρ) (i : InstanceId) :
    n.phase? i = (n.timer? i).map fun t => t.state.phase := by
  rw [phase?, timer?, Option.map_map]
  rfl

theorem contains_eq (n : Node ρ) (i : InstanceId) : n.dodags.contains i = (n.timer? i).isSome := by
  rw [Table.contains, timer?, Option.isSome_map]

namespace Moment

variable {x : Moment ρ} {i : InstanceId}

/-- The trickle timer rings. -/
def fires (x : Moment ρ) (i : InstanceId) : Bool :=
  match x.event.signal? i with
  | some (.ring _) => true
  | _ => false

/-- A consistent advertisement is noted. -/
def hears (x : Moment ρ) (i : InstanceId) : Bool :=
  match x.event.signal? i with
  | some .hear => true
  | _ => false

/-- The instance is left. -/
def leaves (x : Moment ρ) (i : InstanceId) : Bool :=
  match x.event.signal? i with
  | some .leave => true
  | _ => false

/-- A reset takes effect. -/
def resets (x : Moment ρ) (i : InstanceId) : Bool :=
  match x.event.signal? i with
  | some (.reset force _) => (x.before.dodags.find? i).any fun d => d.resets force
  | _ => false

/-- The instance is joined. -/
def joins (x : Moment ρ) (i : InstanceId) : Bool :=
  !x.before.dodags.contains i && x.after.dodags.contains i

/-- The decision of an interval is taken. -/
def decides (x : Moment ρ) (i : InstanceId) : Bool :=
  x.before.phase? i = some .listen && x.after.phase? i = some .jitter

/-- An interval begins. -/
def begins (x : Moment ρ) (i : InstanceId) : Bool :=
  x.after.phase? i = some .listen && (x.before.phase? i ≠ some .listen || x.resets i)

/-- A reset takes effect on the timer of the instance. -/
theorem resets_eq (x : Moment ρ) (i : InstanceId) : x.resets i =
    match x.event.signal? i with
    | some (.reset force _) => (x.before.timer? i).any fun t => t.state.resets force
    | _ => false := by
  unfold resets
  split
  · rw [timer?, Option.any_map]
    rfl
  · rfl

theorem fires_of_ring {due : Instant} (h : x.event.signal? i = some (.ring due)) :
    x.fires i = true := by
  rw [fires, h]

theorem exists_ring_of_fires (h : x.fires i = true) :
    ∃ due, x.event.signal? i = some (.ring due) := by
  unfold fires at h
  split at h
  · rename_i due hsignal
    exact ⟨due, hsignal⟩
  · cases h

/-- An instance is left where that is requested. -/
theorem leaves_iff : x.leaves i = true ↔ ∃ now, x.event = .request (.leave i) now := by
  constructor
  · intro h
    unfold leaves at h
    split at h
    · rename_i hsignal
      unfold Event.signal? at hsignal
      split at hsignal
      · split at hsignal <;> cases hsignal
      · split at hsignal
        · rename_i j now hevent hij
          exact ⟨now, by rw [hevent, hij]⟩
        · cases hsignal
      · split at hsignal <;> cases hsignal
      · split at hsignal <;> cases hsignal
      · split at hsignal <;> cases hsignal
      · cases hsignal
    · cases h
  · rintro ⟨now, hevent⟩
    simp [leaves, Event.signal?, hevent]

/-- What happens to the trickle timer `t` of an instance at a moment. -/
inductive Course [RandomSource ρ] (p : Platform) (x : Moment ρ) (i : InstanceId) (t : Timer) : Prop
  /-- Nothing, or an advertisement is noted. -/
  | idle : x.fires i = false → x.resets i = false → x.leaves i = false → x.begins i = false →
      x.decides i = false →
      x.after.timer? i = some { t with state := if x.hears i then t.state.hear else t.state } →
        Course p x i t
  /-- It waits for the link-local address. -/
  | postponed {e : Instant} : x.event.signal? i = some (.ring e) → t.due = some e →
      x.before.latchReady.mayAdvertise = false → x.begins i = false → x.decides i = false →
        x.after.timer? i = some { t with due := some (e + p.postponeDelay) } → Course p x i t
  /-- It takes its decision. -/
  | decided {e : Instant} : x.event.signal? i = some (.ring e) → t.due = some e →
      x.before.latchReady.mayAdvertise = true → t.state.phase = .listen → x.begins i = false →
        x.decides i = true →
          x.after.timer? i = some ⟨t.state.decided, some (e + t.state.jitter)⟩ → Course p x i t
  /-- The next interval begins. -/
  | ended {e : Instant} {split : Split} {d : Dodag} {source source' : ρ} :
      x.event.signal? i = some (.ring e) → t.due = some e →
        x.before.latchReady.mayAdvertise = true → t.state.phase ≠ .listen → x.begins i = true →
          x.decides i = false → t.state.grow.begin p source = .ok (split, d, source') →
            x.after.timer? i = some ⟨d, some (e + split.listen)⟩ → Course p x i t
  /-- It starts over. -/
  | reset {force : Bool} {now : Instant} {split : Split} {d : Dodag} {source source' : ρ} :
      x.event.signal? i = some (.reset force now) → x.resets i = true → x.begins i = true →
        x.decides i = false → t.state.restart.begin p source = .ok (split, d, source') →
          x.after.timer? i = some ⟨d, some (now + split.listen)⟩ → Course p x i t
  /-- Its instance is left. -/
  | left : x.event.signal? i = some .leave → x.begins i = false → x.decides i = false →
      x.after.timer? i = none → Course p x i t

end Moment

variable [RandomSource ρ] {p : Platform} {x : Moment ρ} {i : InstanceId} {t : Timer} {n k : Node ρ}
  {ms : List (Moment ρ)}

omit [RandomSource ρ] in
theorem phase?_of_timer? (ht : n.timer? i = some t) : n.phase? i = some t.state.phase := by
  rw [phase?_eq, ht]
  rfl

omit [RandomSource ρ] in
/-- Where the phase stays the same and no reset takes effect, nothing begins and nothing is
decided. -/
theorem Moment.idle_of_phase {t' : Timer} (ht : x.before.timer? i = some t)
    (ht' : x.after.timer? i = some t') (hphase : t'.state.phase = t.state.phase)
    (hreset : x.resets i = false) : x.begins i = false ∧ x.decides i = false := by
  have hbefore := phase?_of_timer? ht
  have hafter := phase?_of_timer? ht'
  rw [hphase] at hafter
  constructor
  · simp [Moment.begins, hbefore, hafter, hreset]
  · cases hp : t.state.phase <;> simp [Moment.decides, hbefore, hafter, hp]

/-- An interval begins in its listen phase. -/
theorem phase_of_begin {d d' : Dodag} {split : Split} {source source' : ρ}
    (h : d.begin p source = .ok (split, d', source')) : d'.phase = .listen := by
  obtain ⟨-, -, -, -, -, -, rfl⟩ := Dodag.begin_eq_ok h
  rfl

/-- Every moment is one of those in the course of the timer of a joined instance. -/
theorem Moment.Valid.course (h : x.Valid p) (ht : x.before.timer? i = some t) : x.Course p i t := by
  have hstep := h.turns.timers i
  have hresets := x.resets_eq i
  generalize hsignal : x.event.signal? i = s at hstep
  generalize ht' : x.after.timer? i = t' at hstep
  rw [ht] at hstep hresets
  rw [hsignal] at hresets
  have hbefore := phase?_of_timer? ht
  -- What is noted or left out changes no phase.
  have hidle {t' : Timer} (hfires : x.fires i = false) (hleaves : x.leaves i = false)
      (hreset : x.resets i = false) (ht' : x.after.timer? i = some t')
      (heq : t' = { t with state := if x.hears i then t.state.hear else t.state }) :
      x.Course p i t := by
    have hphase : t'.state.phase = t.state.phase := by
      rw [heq]
      cases x.hears i <;> rfl
    obtain ⟨hbegins, hdecides⟩ := Moment.idle_of_phase ht ht' hphase hreset
    exact .idle hfires hreset hleaves hbegins hdecides (ht'.trans (congrArg some heq))
  cases hstep with
  | aside =>
    exact hidle (by simp [Moment.fires, hsignal]) (by simp [Moment.leaves, hsignal]) hresets ht'
      (by simp [Moment.hears, hsignal])
  | refused =>
    exact hidle (by simp [Moment.fires, hsignal]) (by simp [Moment.leaves, hsignal]) hresets ht'
      (by simp [Moment.hears, hsignal])
  | kept hkept =>
    exact hidle (by simp [Moment.fires, hsignal]) (by simp [Moment.leaves, hsignal])
      (hresets.trans hkept) ht' (by simp [Moment.hears, hsignal])
  | heard =>
    exact hidle (by simp [Moment.fires, hsignal]) (by simp [Moment.leaves, hsignal]) hresets ht'
      (by simp [Moment.hears, hsignal])
  | left =>
    have hafter : x.after.phase? i = none := by rw [phase?_eq, ht']; rfl
    exact .left hsignal (by simp [Moment.begins, hafter]) (by simp [Moment.decides, hafter]) ht'
  | reset hreset hbegin =>
    have hafter := phase?_of_timer? ht'
    rw [phase_of_begin hbegin] at hafter
    have hresets : x.resets i = true := hresets.trans hreset
    exact .reset hsignal hresets (by simp [Moment.begins, hafter, hresets])
      (by simp [Moment.decides, hafter]) hbegin ht'
  | postponed hready hdue =>
    obtain ⟨hbegins, hdecides⟩ := Moment.idle_of_phase ht ht' rfl hresets
    exact .postponed hsignal hdue hready hbegins hdecides ht'
  | decided hready hdue hphase =>
    have hafter := phase?_of_timer? ht'
    rw [hphase] at hbefore
    exact .decided hsignal hdue hready hphase (by simp [Moment.begins, hafter, Dodag.decided])
      (by simp [Moment.decides, hbefore, hafter, Dodag.decided]) ht'
  | ended hready hdue hphase hbegin =>
    have hafter := phase?_of_timer? ht'
    rw [phase_of_begin hbegin] at hafter
    exact .ended hsignal hdue hready hphase (by simp [Moment.begins, hbefore, hafter, hphase])
      (by simp [Moment.decides, hafter]) hbegin ht'

/-- Where a decision is taken, the timer rang in its listen phase. -/
theorem Moment.Course.of_decides (h : x.Course p i t) (hdecides : x.decides i = true) :
    ∃ e, x.event.signal? i = some (.ring e) ∧ t.due = some e ∧
      x.before.latchReady.mayAdvertise = true ∧ t.state.phase = .listen ∧
        x.after.timer? i = some ⟨t.state.decided, some (e + t.state.jitter)⟩ := by
  cases h with
  | decided hsignal hdue hready hphase _ _ hafter =>
    exact ⟨_, hsignal, hdue, hready, hphase, hafter⟩
  | idle _ _ _ _ hnot | postponed _ _ _ _ hnot | ended _ _ _ _ _ hnot | reset _ _ _ hnot
  | left _ _ hnot =>
    rw [hdecides] at hnot
    cases hnot

/-- An instance that has a timer afterwards was not left. -/
theorem Moment.Course.leaves_eq_false {t' : Timer} (h : x.Course p i t)
    (ht' : x.after.timer? i = some t') : x.leaves i = false := by
  cases h with
  | idle _ _ hleaves => exact hleaves
  | postponed hsignal | decided hsignal | ended hsignal | reset hsignal => rw [leaves, hsignal]
  | left _ _ _ hafter =>
    rw [hafter] at ht'
    cases ht'

/-- An instance that is joined begins its shortest interval. -/
theorem Moment.Valid.joined (h : x.Valid p) (hnone : x.before.timer? i = none)
    (ht : x.after.timer? i = some t) :
    ∃ params now split, ∃ source source' : ρ, x.event.signal? i = some (.join params now) ∧
      params.Valid ∧ (Dodag.new params).restart.begin p source = .ok (split, t.state, source') ∧
        t.due = some (now + split.listen) ∧ x.joins i = true ∧ x.begins i = true := by
  have hstep := h.turns.timers i
  generalize hsignal : x.event.signal? i = s at hstep
  rw [hnone, ht] at hstep
  cases hstep with
  | joined hvalid hbegin =>
    have hafter := phase?_of_timer? ht
    have hbefore : x.before.phase? i = none := by rw [phase?_eq, hnone]; rfl
    rw [phase_of_begin hbegin] at hafter
    refine ⟨_, _, _, _, _, rfl, hvalid, hbegin, rfl, ?_, ?_⟩
    · simp [Moment.joins, contains_eq, hnone, ht]
    · simp [Moment.begins, hbefore, hafter]

/-! ## Properties of records -/

omit [RandomSource ρ] in
theorem find?_concat_of_some {α : Type} {f : α → Bool} {xs : List α} {a b : α}
    (h : xs.find? f = some a) : (xs ++ [b]).find? f = some a := by
  rw [List.find?_append, h, Option.some_or]

omit [RandomSource ρ] in
theorem find?_concat_of_none {α : Type} {f : α → Bool} {xs : List α} {b : α}
    (h : xs.find? f = none) : (xs ++ [b]).find? f = if f b then some b else none := by
  rw [List.find?_append, h, Option.none_or, List.find?_cons, List.find?_nil]
  cases f b <;> rfl

/-- A record is cut at one of its moments. -/
theorem Trail.cut {pre post : List (Moment ρ)} (h : Trail p n (pre ++ x :: post) k) :
    Trail p n pre x.before ∧ x.Valid p ∧ Trail p x.after post k := by
  obtain ⟨m, hpre, hrest⟩ := h.split
  obtain _ | ⟨hsame, hx, hpost⟩ := hrest
  refine ⟨?_, hx, hpost⟩
  have hbefore : Trail p m [] x.before := .nil hsame
  simpa using hpre.append hbefore

/-- A property of a record and of the node at its end holds if it holds of the empty record and no
event of the record breaks it. -/
theorem Trail.snoc_induction {motive : List (Moment ρ) → Node ρ → Prop} (hnil : motive [] n)
    (hworld : ∀ (ms : List (Moment ρ)) (n m : Node ρ), n.SameCore m → motive ms n → motive ms m)
    (hsnoc : ∀ (ms : List (Moment ρ)) (x : Moment ρ), x.Valid p → motive ms x.before →
      motive (ms ++ [x]) x.after)
    (h : Trail p n ms k) : motive ms k := by
  -- The induction is on the trail, and what was recorded before it grows.
  have hgeneral {n k : Node ρ} {ms : List (Moment ρ)} (h : Trail p n ms k) :
      ∀ start, motive start n → motive (start ++ ms) k := by
    induction h with
    | nil hsame =>
      intro start hstart
      rw [List.append_nil]
      exact hworld _ _ _ hsame hstart
    | @cons n k x ms hsame hx _ ih =>
      intro start hstart
      rw [List.append_cons]
      exact ih _ (hsnoc start x hx (hworld _ _ _ hsame hstart))
  exact hgeneral h [] hnil

/-- A property of a record and of the timer of an instance at its end holds if it holds at the
start, and no event that is `Fair` breaks it or takes the instance away. -/
theorem Trail.timer_induction {motive : List (Moment ρ) → Timer → Prop} {Fair : Moment ρ → Prop}
    (hnil : motive [] t)
    (hsnoc : ∀ (ms : List (Moment ρ)) (x : Moment ρ) (t : Timer), x.Valid p → Fair x →
      x.before.timer? i = some t → motive ms t →
        ∃ t', x.after.timer? i = some t' ∧ motive (ms ++ [x]) t')
    (h : Trail p n ms k) (ht : n.timer? i = some t) (hms : ∀ x ∈ ms, Fair x) :
    ∃ t', k.timer? i = some t' ∧ motive ms t' := by
  refine h.snoc_induction (motive := fun ms k => (∀ x ∈ ms, Fair x) →
    ∃ t', k.timer? i = some t' ∧ motive ms t') ?_ ?_ ?_ hms
  · exact fun _ => ⟨t, ht, hnil⟩
  · intro ms n m hsame ih hms
    rw [hsame.timer?]
    exact ih hms
  · intro ms x hx ih hms
    obtain ⟨t, ht, hmotive⟩ := ih fun y hy => hms y (List.mem_append_left _ hy)
    exact hsnoc ms x t hx (hms x (List.mem_append_right _ List.mem_cons_self)) ht hmotive

/-- A property of a record and of the timer of an instance that was joined in it holds if joining
brings it about, and nothing breaks it while the instance is joined. -/
@[elab_as_elim]
theorem Trail.joined_induction {motive : List (Moment ρ) → Timer → Prop}
    (hjoin : ∀ (ms : List (Moment ρ)) (x : Moment ρ) (t : Timer), x.Valid p →
      x.before.timer? i = none → x.after.timer? i = some t → motive (ms ++ [x]) t)
    (hsnoc : ∀ (ms : List (Moment ρ)) (x : Moment ρ) (t t' : Timer), x.Valid p →
      x.before.timer? i = some t → x.after.timer? i = some t' → motive ms t →
        motive (ms ++ [x]) t')
    (h : Trail p n ms k) (hn : n.timer? i = none) (hk : k.timer? i = some t) : motive ms t := by
  have hinv : ∀ t, k.timer? i = some t → motive ms t := by
    refine h.snoc_induction (motive := fun ms k => ∀ t, k.timer? i = some t → motive ms t) ?_ ?_ ?_
    · intro t ht
      rw [hn] at ht
      cases ht
    · intro ms n m hsame ih t ht
      rw [hsame.timer?] at ht
      exact ih t ht
    · intro ms x hx ih t' ht'
      cases ht : x.before.timer? i with
      | none => exact hjoin ms x t' hx ht ht'
      | some t => exact hsnoc ms x t t' hx ht ht' (ih t ht)
  exact hinv t hk

/-- A node that may advertise may do so at every later moment. -/
theorem Trail.mayAdvertise (h : Trail p n ms k) (hn : n.mayAdvertise = true) :
    ∀ x ∈ ms, x.before.mayAdvertise = true := by
  induction h with
  | nil => exact fun x hx => absurd hx List.not_mem_nil
  | cons hsame hx _ ih =>
    have hbefore := hsame.mayAdvertise.trans hn
    intro y hy
    rcases List.mem_cons.1 hy with rfl | hy
    · exact hbefore
    · exact ih (hx.turns.mayAdvertise hbefore) y hy

end TrickleNet.Node
