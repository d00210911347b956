import Mathlib
import TrickleNet.Proofs.Ticker
/-!
# When a detached node solicits

The ticker counts the ticks since the last broadcast solicitation, also while the node belongs to an
instance, and clamps the count to 16 bits.  A tick broadcasts if the node is detached and the count
has reached the interval of solicitations (`Moment.Valid.broadcasts_iff`).  A restart gives the
count a head start, so the first broadcast comes early.

So the count is what the record says (`Trail.sinceSolicit_of_quiet`): the ticks since the last
broadcast or, if there was none since the restart, all of them and the head start.  The clamp makes
no difference, since the interval has 16 bits too.
-/

namespace TrickleNet

namespace Platform

variable {p : Platform} {t : Nat}

/-- The number of the tick at which a node that stays detached solicits for the first time. -/
def firstSolicit (p : Platform) : Nat := max 1 (min p.solicitDelay.toNat p.solicitInterval.toNat)

/-- What a node that stays detached has counted after `t` ticks. -/
def countAt (p : Platform) (t : Nat) : Nat :=
  if t < p.firstSolicit then min (p.solicitInterval.toNat - p.solicitDelay.toNat + t) 65535
  else (t - p.firstSolicit) % p.solicitInterval.toNat

theorem countAt_of_lt (h : t < p.firstSolicit) :
    p.countAt t = min (p.solicitInterval.toNat - p.solicitDelay.toNat + t) 65535 :=
  if_pos h

theorem countAt_of_le (h : p.firstSolicit ≤ t) :
    p.countAt t = (t - p.firstSolicit) % p.solicitInterval.toNat :=
  if_neg (Nat.not_lt.2 h)

theorem firstSolicit_pos (p : Platform) : 1 ≤ p.firstSolicit := Nat.le_max_left 1 _

theorem countAt_zero : p.countAt 0 = p.solicitInterval.toNat - p.solicitDelay.toNat := by
  have hlt : p.solicitInterval.toNat < 65536 := UInt16.toNat_lt _
  rw [countAt_of_lt p.firstSolicit_pos]
  omega

/-- The count goes up with each tick until it reaches the interval, and then starts over. -/
theorem countAt_succ (hinterval : 1 ≤ p.solicitInterval.toNat) :
    p.countAt (t + 1) = if p.solicitInterval.toNat ≤ min (p.countAt t + 1) 65535 then 0
      else min (p.countAt t + 1) 65535 := by
  have hword : p.solicitInterval.toNat < 65536 := UInt16.toNat_lt _
  have hfirst : p.firstSolicit = max 1 (min p.solicitDelay.toNat p.solicitInterval.toNat) := rfl
  rcases Nat.lt_trichotomy (t + 1) p.firstSolicit with hlt | heq | hgt
  · rw [countAt_of_lt hlt, countAt_of_lt (Nat.lt_of_succ_lt hlt), if_neg (by omega)]
    omega
  · rw [countAt_of_le (Nat.le_of_eq heq.symm), heq, Nat.sub_self, Nat.zero_mod,
      countAt_of_lt (by omega), if_pos (by omega)]
  · have hsucc : t + 1 - p.firstSolicit = t - p.firstSolicit + 1 := by omega
    have hmod := Nat.mod_lt (t - p.firstSolicit) hinterval
    rw [countAt_of_le (Nat.le_of_lt hgt), countAt_of_le (Nat.le_of_lt_succ hgt), hsucc,
      ← Nat.mod_add_mod]
    by_cases hlast : (t - p.firstSolicit) % p.solicitInterval.toNat + 1 = p.solicitInterval.toNat
    · rw [if_pos (by omega), hlast, Nat.mod_self]
    · rw [if_neg (by omega), Nat.mod_eq_of_lt (by omega)]
      omega

/-- The count starts over at the first solicitation and after each interval. -/
theorem countAt_eq_zero_iff (ht : 1 ≤ t) :
    p.countAt t = 0 ↔ ∃ j, t = p.firstSolicit + j * p.solicitInterval.toNat := by
  rcases Nat.lt_or_ge t p.firstSolicit with hlt | hge
  · rw [countAt_of_lt hlt]
    refine iff_of_false (by omega) ?_
    rintro ⟨j, hj⟩
    omega
  · rw [countAt_of_le hge, ← Nat.dvd_iff_mod_eq_zero]
    constructor
    · rintro ⟨j, hj⟩
      refine ⟨j, ?_⟩
      rw [Nat.mul_comm] at hj
      omega
    · rintro ⟨j, hj⟩
      refine ⟨j, ?_⟩
      rw [Nat.mul_comm]
      omega

end Platform

namespace Node

variable {ρ : Type} {p : Platform} {n m k : Node ρ} {x s : Moment ρ} {now : Instant}
  {ms : List (Moment ρ)}

/-- The node belongs to no instance. -/
def Detached (n : Node ρ) : Prop := ∀ i, n.dodags.contains i = false

theorem detached_iff_size : n.Detached ↔ n.dodags.size = 0 := Table.size_eq_zero_iff.symm

/-- A broadcast solicitation is counted. -/
def Moment.broadcasts (x : Moment ρ) : Bool :=
  x.before.counts.disBroadcast < x.after.counts.disBroadcast

/-- The number of the tick that comes next, after the record `ms` since the ticker was restarted. -/
def nextTick (ms : List (Moment ρ)) : Nat := ms.countP Moment.ticks + 1

/-! ## What a tick does about solicitations -/

/-- A tick solicits if the node is detached and has not done so for long, and counts itself
otherwise. -/
inductive Solicits (p : Platform) (n m : Node ρ) : Prop
  | broadcast : n.Detached → p.solicitInterval.toNat ≤ min (n.sinceSolicit + 1) 65535 →
      m.sinceSolicit = 0 → m.counts.disBroadcast = n.counts.disBroadcast + 1 →
        n.Hands m (.dis none) → Solicits p n m
  | counted : ¬(n.Detached ∧ p.solicitInterval.toNat ≤ min (n.sinceSolicit + 1) 65535) →
      m.sinceSolicit = min (n.sinceSolicit + 1) 65535 →
        m.counts.disBroadcast = n.counts.disBroadcast → Solicits p n m

theorem solicits_of_upkeepRings {alarms : AlarmTable}
    (h : upkeepRings p { n with alarms } = .ok m) : n.Solicits p m := by
  obtain ⟨k, l, hk, hl, rfl⟩ := upkeepRings_eq_ok h
  obtain ⟨upkeep, -, -, rfl⟩ := ageRoutes_eq_ok hk
  rcases solicitDetached_eq_ok hl with ⟨⟨hdetached, hlong⟩, k, hk, hm⟩ | ⟨hnot, rfl⟩
  · have hhands := send_hands hm
    have hcount := send_counts (c := .disBroadcast) hm (by decide)
    obtain ⟨outbox, counts, rfl⟩ := send_unchanged hm
    obtain ⟨-, rfl⟩ := count_eq_ok hk
    exact .broadcast (detached_iff_size.2 hdetached) hlong rfl hcount
      ⟨hhands.outbox, hhands.dropped⟩
  · exact .counted (fun h => hnot ⟨detached_iff_size.1 h.1, h.2⟩) rfl rfl

variable [RandomSource ρ]

theorem Moment.Valid.solicits (h : x.Valid p) (hticks : x.ticks = true) :
    x.before.Solicits p x.after := by
  obtain ⟨e, hevent⟩ := ticks_iff.1 hticks
  exact solicits_of_upkeepRings (h.rang hevent).2

/-- Only a tick broadcasts. -/
theorem Moment.Valid.ticks_of_broadcasts (h : x.Valid p) (hbroadcasts : x.broadcasts = true) :
    x.ticks = true := by
  by_contra hticks
  have hnot : .disBroadcast ∉ x.event.footprint.counters := by
    cases hevent : x.event with
    | request o now =>
      cases o with
      | command c => cases c <;> simp
      | join | leave | addParent | removeParent | scheduleReception | handleTimer => simp
    | ring r =>
      obtain ⟨q, due⟩ := r
      cases q with
      | upkeep => exact absurd (ticks_iff.2 ⟨due, hevent⟩) hticks
      | advertise | report | watch | probe => simp
    | settled => simp
  have hsame : x.after.counts.disBroadcast = x.before.counts.disBroadcast :=
    h.confined.counts _ hnot
  have hlt := of_decide_eq_true hbroadcasts
  omega

/-- A tick broadcasts exactly if the node is detached and its count has reached the interval. -/
theorem Moment.Valid.broadcasts_iff (h : x.Valid p) (hticks : x.ticks = true) :
    x.broadcasts = true ↔ x.before.Detached ∧
      p.solicitInterval.toNat ≤ min (x.before.sinceSolicit + 1) 65535 := by
  rw [broadcasts, decide_eq_true_eq]
  cases h.solicits hticks with
  | broadcast hdetached hlong _ hcount =>
    refine iff_of_true ?_ ⟨hdetached, hlong⟩
    omega
  | counted hnot _ hcount =>
    refine iff_of_false ?_ hnot
    omega

/-- A broadcast is handed to the outbox, and the count starts over. -/
theorem Moment.Valid.broadcast (h : x.Valid p) (hbroadcasts : x.broadcasts = true) :
    x.before.Hands x.after (.dis none) ∧ x.after.sinceSolicit = 0 := by
  cases h.solicits (h.ticks_of_broadcasts hbroadcasts) with
  | broadcast _ _ hsince _ hhands => exact ⟨hhands, hsince⟩
  | counted _ _ hcount =>
    have hlt := of_decide_eq_true hbroadcasts
    omega

/-- Unless it broadcasts or restarts the ticker, an event counts itself exactly if it is a tick. -/
theorem Moment.Valid.sinceSolicit_eq (h : x.Valid p) (hrestarts : x.restartsUpkeep = false)
    (hbroadcasts : x.broadcasts = false) :
    x.after.sinceSolicit =
      if x.ticks then min (x.before.sinceSolicit + 1) 65535 else x.before.sinceSolicit := by
  cases hticks : x.ticks with
  | false => exact (h.sameUpkeep hticks hrestarts).sinceSolicit
  | true =>
    cases h.solicits hticks with
    | broadcast _ _ _ hcount =>
      have hnot := of_decide_eq_false hbroadcasts
      omega
    | counted _ hsince => exact hsince

/-! ## The count along a record -/

/-- The count is never larger than the ticks since it was last known. -/
theorem Trail.sinceSolicit_le (h : Trail p n ms k) (honce : ∀ x ∈ ms, x.restartsUpkeep = false) :
    k.sinceSolicit ≤ n.sinceSolicit + ms.countP Moment.ticks := by
  refine h.snoc_induction (motive := fun ms k => (∀ x ∈ ms, x.restartsUpkeep = false) →
    k.sinceSolicit ≤ n.sinceSolicit + ms.countP Moment.ticks) ?_ ?_ ?_ honce
  · exact fun _ => Nat.le_refl _
  · intro ms n m hsame ih honce
    rw [hsame.sinceSolicit]
    exact ih honce
  · intro ms x hx ih honce
    have hle := ih fun y hy => honce y (List.mem_append_left _ hy)
    rw [List.countP_append, List.countP_singleton]
    cases hbroadcasts : x.broadcasts with
    | true =>
      rw [(hx.broadcast hbroadcasts).2]
      exact Nat.zero_le _
    | false =>
      rw [hx.sinceSolicit_eq (honce x (List.mem_append_right _ List.mem_cons_self)) hbroadcasts]
      split <;> omega

/-- While nothing is broadcast the ticks are counted, as far as 16 bits go. -/
theorem Trail.sinceSolicit_of_quiet (h : Trail p n ms k) (hle : n.sinceSolicit ≤ 65535)
    (hms : ∀ x ∈ ms, x.restartsUpkeep = false ∧ x.broadcasts = false) :
    k.sinceSolicit = min (n.sinceSolicit + ms.countP Moment.ticks) 65535 := by
  refine h.snoc_induction (motive := fun ms k =>
    (∀ x ∈ ms, x.restartsUpkeep = false ∧ x.broadcasts = false) →
      k.sinceSolicit = min (n.sinceSolicit + ms.countP Moment.ticks) 65535) ?_ ?_ ?_ hms
  · exact fun _ => (Nat.min_eq_left hle).symm
  · intro ms n m hsame ih hms
    rw [hsame.sinceSolicit]
    exact ih hms
  · intro ms x hx ih hms
    have hcount := ih fun y hy => hms y (List.mem_append_left _ hy)
    obtain ⟨hrestarts, hbroadcasts⟩ := hms x (List.mem_append_right _ List.mem_cons_self)
    rw [hx.sinceSolicit_eq hrestarts hbroadcasts, List.countP_append, List.countP_singleton]
    split <;> omega

/-- After a broadcast the count is that of the ticks since. -/
theorem Trail.sinceSolicit_after {before after : List (Moment ρ)} {b : Moment ρ}
    (h : Trail p n (before ++ b :: after) k) (hb : b.broadcasts = true)
    (honce : ∀ x ∈ before ++ b :: after, x.restartsUpkeep = false)
    (hafter : ∀ y ∈ after, y.broadcasts = false) :
    k.sinceSolicit = min (after.countP Moment.ticks) 65535 ∧
      nextTick (before ++ b :: after) - nextTick before = after.countP Moment.ticks + 1 := by
  obtain ⟨-, hvalid, htrail⟩ := h.cut
  have hzero := (hvalid.broadcast hb).2
  constructor
  · rw [htrail.sinceSolicit_of_quiet (by omega) fun y hy => ⟨honce y (by simp [hy]), hafter y hy⟩]
    rw [hzero, Nat.zero_add]
  · rw [nextTick, nextTick, List.countP_append, List.countP_cons, hvalid.ticks_of_broadcasts hb]
    simp only [if_true]
    omega

omit [RandomSource ρ] in
/-- In a list nothing has a property, or something has it for the last time. -/
theorem exists_last_or_none {α : Type} (f : α → Bool) (l : List α) :
    (∀ y ∈ l, f y = false) ∨
      ∃ before b after, l = before ++ b :: after ∧ f b = true ∧ ∀ y ∈ after, f y = false := by
  induction l with
  | nil => exact .inl fun y hy => absurd hy List.not_mem_nil
  | cons x l ih =>
    rcases ih with hnone | ⟨before, b, after, rfl, hb, hafter⟩
    · cases hx : f x with
      | true => exact .inr ⟨[], x, l, rfl, hx, hnone⟩
      | false => exact .inl (List.forall_mem_cons.2 ⟨hx, hnone⟩)
    · exact .inr ⟨x :: before, b, after, rfl, hb, hafter⟩

/-! ## A node that stays detached -/

/-- A tick broadcasts exactly if the count starts over. -/
theorem Moment.Valid.broadcasts_iff_eq_zero (h : x.Valid p) (hticks : x.ticks = true)
    (hrestarts : x.restartsUpkeep = false) : x.broadcasts = true ↔ x.after.sinceSolicit = 0 := by
  cases hbroadcasts : x.broadcasts with
  | true => exact iff_of_true rfl (h.broadcast hbroadcasts).2
  | false =>
    refine iff_of_false Bool.false_ne_true ?_
    rw [h.sinceSolicit_eq hrestarts hbroadcasts, if_pos hticks]
    omega

/-- As long as a node is detached whenever the ticker rings, its count depends on the number of
ticks alone. -/
theorem Trail.sinceSolicit_of_detached (h : Trail p n ms k)
    (hinterval : 1 ≤ p.solicitInterval.toNat) (hn : n.sinceSolicit = p.countAt 0)
    (honce : ∀ x ∈ ms, x.restartsUpkeep = false)
    (hdetached : ∀ x ∈ ms, x.ticks = true → x.before.Detached) :
    k.sinceSolicit = p.countAt (ms.countP Moment.ticks) := by
  refine h.snoc_induction (motive := fun ms k => (∀ x ∈ ms, x.restartsUpkeep = false) →
    (∀ x ∈ ms, x.ticks = true → x.before.Detached) →
      k.sinceSolicit = p.countAt (ms.countP Moment.ticks)) (fun _ _ => hn) ?_ ?_ honce hdetached
  · intro ms n m hsame ih honce hdetached
    rw [hsame.sinceSolicit]
    exact ih honce hdetached
  · intro ms x hx ih honce hdetached
    have hmem : x ∈ ms ++ [x] := List.mem_append_right _ List.mem_cons_self
    have hcount := ih (fun y hy => honce y (List.mem_append_left _ hy))
      fun y hy => hdetached y (List.mem_append_left _ hy)
    rw [List.countP_append, List.countP_singleton]
    cases hticks : x.ticks with
    | false => rw [(hx.sameUpkeep hticks (honce x hmem)).sinceSolicit, hcount]; rfl
    | true =>
      have hiff := hx.broadcasts_iff hticks
      rw [hcount] at hiff
      rw [if_pos rfl, Platform.countAt_succ hinterval]
      cases hbroadcasts : x.broadcasts with
      | true => rw [if_pos (hiff.1 hbroadcasts).2, (hx.broadcast hbroadcasts).2]
      | false =>
        have hshort : ¬p.solicitInterval.toNat ≤
            min (p.countAt (ms.countP Moment.ticks) + 1) 65535 := by
          intro hlong
          rw [hiff.2 ⟨hdetached x hmem hticks, hlong⟩] at hbroadcasts
          cases hbroadcasts
        rw [if_neg hshort, hx.sinceSolicit_eq (honce x hmem) hbroadcasts, if_pos hticks, hcount]

/-- A node that is detached stays so until it joins an instance. -/
theorem Trail.detached (h : Trail p n ms k) (hn : n.Detached)
    (hms : ∀ x ∈ ms, ∀ i, x.joins i = false) : k.Detached := by
  refine h.invariant (I := Detached) (fun n m hsame hn i => ?_) (fun x hx _ hn i => ?_) hn
  · rw [hsame.dodags]
    exact hn i
  · have hjoins := hms x hx i
    rw [Moment.joins, hn i] at hjoins
    simpa using hjoins

/-! ## The schedule -/

/-- Two broadcasts are at least an interval apart. -/
theorem Trail.interval_le {before between rest : List (Moment ρ)} {b b' : Moment ρ}
    (h : Trail p n (before ++ b :: (between ++ b' :: rest)) k)
    (honce : ∀ x ∈ between, x.restartsUpkeep = false) (hb : b.broadcasts = true)
    (hb' : b'.broadcasts = true) :
    p.solicitInterval.toNat ≤ nextTick (before ++ b :: between) - nextTick before := by
  obtain ⟨-, hvalid, hrest⟩ := h.cut
  obtain ⟨hbetween, hvalid', -⟩ := hrest.cut
  have hle := hbetween.sinceSolicit_le honce
  have hlong := ((hvalid'.broadcasts_iff (hvalid'.ticks_of_broadcasts hb')).1 hb').2
  rw [(hvalid.broadcast hb).2] at hle
  rw [nextTick, nextTick, List.countP_append, List.countP_cons, hvalid.ticks_of_broadcasts hb]
  simp only [if_true]
  omega

/-- When a broadcast is an interval old and the last instance is left, the next tick broadcasts. -/
theorem Trail.solicits_after_leaving {before between quiet rest : List (Moment ρ)} {b l : Moment ρ}
    (h : Trail p n (before ++ b :: (between ++ l :: (quiet ++ x :: rest))) k)
    (honce : ∀ y ∈ before ++ b :: (between ++ l :: (quiet ++ x :: rest)), y.restartsUpkeep = false)
    (hb : b.broadcasts = true) (hbetween : ∀ y ∈ between, y.broadcasts = false)
    (hlong : p.solicitInterval.toNat ≤ between.countP Moment.ticks) (hl : l.ticks = false)
    (hdetached : l.after.Detached) (hquiet : ∀ y ∈ quiet, y.ticks = false ∧ ∀ j, y.joins j = false)
    (hticks : x.ticks = true) : x.broadcasts = true := by
  have hinterval : p.solicitInterval.toNat < 65536 := UInt16.toNat_lt _
  obtain ⟨-, hb', hrest⟩ := h.cut
  obtain ⟨hmid, hl', hrest⟩ := hrest.cut
  obtain ⟨hquiet', hx, -⟩ := hrest.cut
  have hnone (y : Moment ρ) (hy : y ∈ quiet) : y.broadcasts = false := by
    obtain ⟨pre, post, rfl⟩ := List.append_of_mem hy
    rw [Bool.eq_false_iff]
    intro hbroadcasts
    have hyes := hquiet'.cut.2.1.ticks_of_broadcasts hbroadcasts
    rw [(hquiet y hy).1] at hyes
    cases hyes
  have hzero := (hb'.broadcast hb).2
  have hbefore := hmid.sinceSolicit_of_quiet (by omega) fun y hy =>
    ⟨honce y (by simp [hy]), hbetween y hy⟩
  have hleft := (hl'.sameUpkeep hl (honce l (by simp))).sinceSolicit
  have hle := hquiet'.sinceSolicit_of_quiet (by omega) fun y hy =>
    ⟨honce y (by simp [hy]), hnone y hy⟩
  apply (hx.broadcasts_iff hticks).2
  refine ⟨hquiet'.detached hdetached fun y hy => (hquiet y hy).2, ?_⟩
  omega

section Restarted

variable {mid : List (Moment ρ)} (h : Trail p n mid x.before) (hx : x.Valid p)
  (hstart : n.sinceSolicit = p.solicitInterval.toNat - p.solicitDelay.toNat)
  (honce : ∀ y ∈ mid, y.restartsUpkeep = false) (hticks : x.ticks = true)

include h hx hstart honce hticks

/-- A tick broadcasts exactly if the node is detached, and the last broadcast lies an interval back
or the first one is due. -/
theorem Trail.broadcasts_iff :
    x.broadcasts = true ↔ x.before.Detached ∧
      ((∃ (before after : List (Moment ρ)) (b : Moment ρ), mid = before ++ b :: after ∧
          b.broadcasts = true ∧ (∀ y ∈ after, y.broadcasts = false) ∧
            p.solicitInterval.toNat ≤ nextTick mid - nextTick before) ∨
        (∀ y ∈ mid, y.broadcasts = false) ∧ p.firstSolicit ≤ nextTick mid) := by
  have hinterval : p.solicitInterval.toNat < 65536 := UInt16.toNat_lt _
  have hquiet (hnone : ∀ y ∈ mid, y.broadcasts = false) : x.before.sinceSolicit =
      min (p.solicitInterval.toNat - p.solicitDelay.toNat + mid.countP Moment.ticks) 65535 := by
    rw [← hstart]
    exact h.sinceSolicit_of_quiet (by omega) fun y hy => ⟨honce y hy, hnone y hy⟩
  rw [hx.broadcasts_iff hticks]
  apply and_congr_right
  intro _
  constructor
  · intro hlong
    rcases exists_last_or_none Moment.broadcasts mid with hnone |
      ⟨before, b, after, rfl, hb, hafter⟩
    · have hcount := hquiet hnone
      refine .inr ⟨hnone, ?_⟩
      rw [nextTick, Platform.firstSolicit]
      omega
    · obtain ⟨hcount, hgap⟩ := h.sinceSolicit_after hb honce hafter
      refine .inl ⟨before, after, b, rfl, hb, hafter, ?_⟩
      omega
  · rintro (⟨before, after, b, rfl, hb, hafter, hlong⟩ | ⟨hnone, hlong⟩)
    · obtain ⟨hcount, hgap⟩ := h.sinceSolicit_after hb honce hafter
      omega
    · have hcount := hquiet hnone
      rw [nextTick, Platform.firstSolicit] at hlong
      omega

/-- A node that is detached at every tick broadcasts once every interval, counted from the first
time. -/
theorem Trail.broadcasts_iff_of_detached (hinterval : 1 ≤ p.solicitInterval.toNat)
    (hrestarts : x.restartsUpkeep = false)
    (hdetached : ∀ y ∈ mid, y.ticks = true → y.before.Detached) (hnow : x.before.Detached) :
    x.broadcasts = true ↔ ∃ j, nextTick mid = p.firstSolicit + j * p.solicitInterval.toNat := by
  have hthrough : Trail p n (mid ++ [x]) x.after :=
    h.append (.cons (.refl _) hx (.nil (.refl _)))
  have hcount : x.after.sinceSolicit = p.countAt (nextTick mid) := by
    rw [hthrough.sinceSolicit_of_detached hinterval (hstart.trans Platform.countAt_zero.symm),
      List.countP_append, List.countP_singleton, if_pos hticks, nextTick]
    · exact List.forall_mem_append.2 ⟨honce, List.forall_mem_singleton.2 hrestarts⟩
    · exact List.forall_mem_append.2 ⟨hdetached, List.forall_mem_singleton.2 fun _ => hnow⟩
  rw [hx.broadcasts_iff_eq_zero hticks hrestarts, hcount]
  exact Platform.countAt_eq_zero_iff (Nat.le_add_left 1 _)

end Restarted

/-! ## Runs -/

/-- Broadcast solicitations keep to a schedule over all joins and leaves.  Take a run that restarts
the ticker and not again since, and number its ticks from there.  A tick broadcasts exactly if no
instance is joined then and either the last broadcast since the restart lies at least an interval
back, or there was none and the number of the tick is at least that of the first solicitation, `max
1 (min solicitDelay solicitInterval)`.

So two broadcasts are at least an interval apart, and none goes out while an instance is joined.  A
node that is detached at every tick broadcasts at the first of these ticks and once every interval
after it.  A node that leaves its last instance when an interval has passed since its last broadcast
solicits at the next tick. -/
theorem solicitations_keep_schedule {source : ρ} {clock : Instant} {ready : Bool}
    {pre post : List (Moment ρ)}
    (hrun : Run p (.new source clock ready) (pre ++ s :: post) n) (hs : s.restartsUpkeep = true)
    (honce : ∀ x ∈ post, x.restartsUpkeep = false) :
    (∀ (mid rest : List (Moment ρ)) (x : Moment ρ), post = mid ++ x :: rest → x.ticks = true →
      (x.broadcasts = true ↔ x.before.Detached ∧
        ((∃ (before after : List (Moment ρ)) (b : Moment ρ), mid = before ++ b :: after ∧
            b.broadcasts = true ∧ (∀ y ∈ after, y.broadcasts = false) ∧
              p.solicitInterval.toNat ≤ nextTick mid - nextTick before) ∨
          (∀ y ∈ mid, y.broadcasts = false) ∧
            max 1 (min p.solicitDelay.toNat p.solicitInterval.toNat) ≤ nextTick mid))) ∧
    (∀ (before between rest : List (Moment ρ)) (b b' : Moment ρ),
      post = before ++ b :: (between ++ b' :: rest) → b.broadcasts = true → b'.broadcasts = true →
        p.solicitInterval.toNat ≤ nextTick (before ++ b :: between) - nextTick before) ∧
    (∀ x ∈ post, x.broadcasts = true →
      x.ticks = true ∧ x.before.Detached ∧ x.before.Hands x.after (.dis none)) ∧
    (1 ≤ p.solicitInterval.toNat → (∀ x ∈ post, x.ticks = true → x.before.Detached) →
      ∀ (mid rest : List (Moment ρ)) (x : Moment ρ), post = mid ++ x :: rest → x.ticks = true →
        (x.broadcasts = true ↔ ∃ j,
          nextTick mid = max 1 (min p.solicitDelay.toNat p.solicitInterval.toNat) +
            j * p.solicitInterval.toNat)) ∧
    ∀ (before between quiet rest : List (Moment ρ)) (b l x : Moment ρ) (i : InstanceId)
      (now : Instant), post = before ++ b :: (between ++ l :: (quiet ++ x :: rest)) →
        b.broadcasts = true → (∀ y ∈ between, y.broadcasts = false) →
        p.solicitInterval.toNat ≤ between.countP Moment.ticks →
          l.event = .request (.leave i) now → l.after.Detached →
            (∀ y ∈ quiet, y.ticks = false ∧ ∀ j, y.joins j = false) → x.ticks = true →
              x.broadcasts = true := by
  obtain ⟨-, hvalid, hpost⟩ := hrun.trail.cut
  obtain ⟨t₀, hevent⟩ := Moment.restartsUpkeep_iff.1 hs
  have hstart : s.after.sinceSolicit = p.solicitInterval.toNat - p.solicitDelay.toNat := by
    rw [hvalid.restarts hevent]
    rfl
  refine ⟨?_, ?_, ?_, ?_, ?_⟩
  · rintro mid rest x rfl hticks
    obtain ⟨hmid, hx, -⟩ := hpost.cut
    exact hmid.broadcasts_iff hx hstart (fun y hy => honce y (List.mem_append_left _ hy)) hticks
  · rintro before between rest b b' rfl hb hb'
    exact hpost.interval_le (fun y hy => honce y (by simp [hy])) hb hb'
  · intro x hx hbroadcasts
    obtain ⟨mid, rest, rfl⟩ := List.append_of_mem hx
    have hvalid := hpost.cut.2.1
    have hticks := hvalid.ticks_of_broadcasts hbroadcasts
    exact ⟨hticks, ((hvalid.broadcasts_iff hticks).1 hbroadcasts).1,
      (hvalid.broadcast hbroadcasts).1⟩
  · rintro hpos hdetached mid rest x rfl hticks
    obtain ⟨hmid, hx, -⟩ := hpost.cut
    exact hmid.broadcasts_iff_of_detached hx hstart
      (fun y hy => honce y (List.mem_append_left _ hy))
      hticks hpos (honce x (by simp)) (fun y hy => hdetached y (List.mem_append_left _ hy))
      (hdetached x (by simp) hticks)
  · rintro before between quiet rest b l x i now rfl hb hbetween hlong hl hdetached hquiet hticks
    have hleaves : l.ticks = false := by rw [Moment.ticks, hl]
    exact hpost.solicits_after_leaving honce hb hbetween hlong hleaves hdetached hquiet hticks

/-- A platform whose detached nodes solicit at the second tick and at every third one after it. -/
def impatient : Platform := { Platform.millis with solicitInterval := 3, solicitDelay := 2 }

/-- A node solicits at its second tick, belongs to an instance for three ticks and leaves it.  The
next tick solicits again, the sixth one, which a node that stayed detached would have let pass. -/
theorem solicitations_keep_schedule_after_leaving :
    ∃ (s t b c j t₃ t₄ t₅ c' l x c'' : Moment Generator) (m m' n : Node Generator),
      record impatient [(.command .restartUpkeep, .zero), (.handleTimer, .ofTicks 2000)]
        (.new (.fixed 0) .zero true) = .ok ([s, t, b, c], m) ∧
      record impatient [(.join 1 { minExponent := 20 }, .ofTicks 2500),
        (.handleTimer, .ofTicks 5000)] m =
        .ok ([j, t₃, t₄, t₅, c'], m') ∧
      record impatient [(.leave 1, .ofTicks 5500), (.handleTimer, .ofTicks 6000)] m' =
        .ok ([l, x, c''], n) ∧
      b.broadcasts = true ∧ x.broadcasts = true ∧ nextTick [t, b, c, j, t₃, t₄, t₅, c', l] = 6 := by
  obtain ⟨s, t, b, c, j, t₃, t₄, t₅, c', l, x, c'', m, m', n, hfirst, hjoined, hleft, hs, honce, hb,
      hquiet, hticks, hl, hdetached, hx, hnumber⟩ :
      ∃ (s t b c j t₃ t₄ t₅ c' l x c'' : Moment Generator) (m m' n : Node Generator),
        record impatient [(.command .restartUpkeep, .zero), (.handleTimer, .ofTicks 2000)]
          (.new (.fixed 0) .zero true) = .ok ([s, t, b, c], m) ∧
        record impatient [(.join 1 { minExponent := 20 }, .ofTicks 2500),
          (.handleTimer, .ofTicks 5000)] m = .ok ([j, t₃, t₄, t₅, c'], m') ∧
        record impatient [(.leave 1, .ofTicks 5500), (.handleTimer, .ofTicks 6000)] m' =
          .ok ([l, x, c''], n) ∧
        s.restartsUpkeep = true ∧
        [t, b, c, j, t₃, t₄, t₅, c', l, x, c''].all (fun y => y.restartsUpkeep = false) = true ∧
        b.broadcasts = true ∧ [c, j, t₃, t₄, t₅, c'].all (fun y => y.broadcasts = false) = true ∧
        [c, j, t₃, t₄, t₅, c'].countP Moment.ticks = 3 ∧
        l.event = .request (.leave 1) (.ofTicks 5500) ∧ l.after.dodags.size = 0 ∧ x.ticks = true ∧
        nextTick [t, b, c, j, t₃, t₄, t₅, c', l] = 6 :=
    ⟨_, _, _, _, _, _, _, _, _, _, _, _, _, _, _, rfl, rfl, rfl, rfl, rfl, rfl, rfl, rfl, rfl,
      rfl, rfl, rfl⟩
  have hrun : Run impatient (.new (Generator.fixed 0) .zero true)
      ([] ++ s :: [t, b, c, j, t₃, t₄, t₅, c', l, x, c'']) n :=
    ((Run.start.record hfirst).record hjoined).record hleft
  obtain ⟨-, -, -, -, hnext⟩ := solicitations_keep_schedule hrun hs (by simpa using honce)
  have hinterval : impatient.solicitInterval.toNat ≤ 3 := by decide
  have hagain := hnext [t] [c, j, t₃, t₄, t₅, c'] [] [c''] b l x 1 (.ofTicks 5500) rfl hb
    (by simpa using hquiet) (hinterval.trans_eq hticks.symm) hl (detached_iff_size.2 hdetached)
    (fun y hy => absurd hy List.not_mem_nil) hx
  exact ⟨s, t, b, c, j, t₃, t₄, t₅, c', l, x, c'', m, m', n, hfirst, hjoined, hleft, hb, hagain,
    hnumber⟩

end Node

end TrickleNet
