import Mathlib
import TrickleNet.Proofs.Run
/-!
# The loop that lets alarms ring

`Node.handleTimer` lets alarms ring within a budget.  This file describes the loop without it.
`Node.Rung` is the loop up to any of its turns, and `Node.Settles p now n x` says what the loop
comes to: `x` is the node once no alarm is due, or the fault at which an alarm stopped it.  There is
at most one such `x` (`Settles.unique`).

`ringAll_settles` is the rule by which a budget is large enough: every alarm that rings lowers a
measure, and the budget is no less than the measure at the start.  The same measure bounds the
number of turns (`Rung.length_add_le`).
-/

namespace TrickleNet.Node

variable {ρ : Type} [RandomSource ρ]

/-- Alarms have rung one after the other, and more may be due. -/
inductive Rung (p : Platform) (now : Instant) : Node ρ → List (Moment ρ) → Node ρ → Prop
  | start {n : Node ρ} : Rung p now n [] n
  | ring {n m k : Node ρ} {r : Ring} {alarms : AlarmTable} {ms : List (Moment ρ)} :
      n.alarms.ring? now = some (r, alarms) → handleRing p { n with alarms } r = .ok m →
        Rung p now m ms k → Rung p now n (⟨n, .ring r, m⟩ :: ms) k

/-- What letting alarms ring comes to: a node with no alarm that is due, or a fault. -/
inductive Settles (p : Platform) (now : Instant) : Node ρ → Checked (Node ρ) → Prop
  | settled {n : Node ρ} : n.alarms.ring? now = none → Settles p now n (.ok n)
  | stopped {n : Node ρ} {r : Ring} {alarms : AlarmTable} {f : Fault} :
      n.alarms.ring? now = some (r, alarms) → handleRing p { n with alarms } r = .error f →
        Settles p now n (.error f)
  | ring {n m : Node ρ} {r : Ring} {alarms : AlarmTable} {x : Checked (Node ρ)} :
      n.alarms.ring? now = some (r, alarms) → handleRing p { n with alarms } r = .ok m →
        Settles p now m x → Settles p now n x

variable {p : Platform} {now : Instant} {n m k : Node ρ} {ms : List (Moment ρ)}
  {x y : Checked (Node ρ)}

theorem Settles.unique (h : Settles p now n x) (h' : Settles p now n y) : x = y := by
  induction h with
  | settled hnone =>
    cases h' with
    | settled => rfl
    | stopped hring | ring hring => simp [hnone] at hring
  | stopped hring hfault =>
    cases h' with
    | settled hnone => simp [hnone] at hring
    | stopped hring' hfault' | ring hring' hfault' =>
      obtain ⟨rfl, rfl⟩ := Prod.mk.inj (Option.some.inj (hring.symm.trans hring'))
      simp_all
  | ring hring hm _ ih =>
    cases h' with
    | settled hnone => simp [hnone] at hring
    | stopped hring' hfault =>
      obtain ⟨rfl, rfl⟩ := Prod.mk.inj (Option.some.inj (hring.symm.trans hring'))
      simp [hm] at hfault
    | ring hring' hm' hrest =>
      obtain ⟨rfl, rfl⟩ := Prod.mk.inj (Option.some.inj (hring.symm.trans hring'))
      obtain rfl := Except.ok.inj (hm.symm.trans hm')
      exact ih hrest

theorem Settles.rings (h : Settles p now n (.ok m)) : ∃ ms, Rings p now n ms m := by
  generalize hx : (Except.ok m : Checked (Node ρ)) = x at h
  induction h with
  | settled hnone =>
    obtain rfl := Except.ok.inj hx
    exact ⟨_, .settled hnone⟩
  | stopped => cases hx
  | ring hring hm _ ih =>
    obtain ⟨ms, hms⟩ := ih hx
    exact ⟨_, .ring hring hm hms⟩

/-- A loop that does not settle has come to an alarm that stops it. -/
theorem Settles.stopped_at {f : Fault} (h : Settles p now n (.error f)) :
    ∃ ms k r alarms, Rung p now n ms k ∧ k.alarms.ring? now = some (r, alarms) ∧
      handleRing p { k with alarms } r = .error f := by
  generalize hx : (Except.error f : Checked (Node ρ)) = x at h
  induction h with
  | settled => cases hx
  | stopped hring hfault =>
    obtain rfl := Except.error.inj hx
    exact ⟨[], _, _, _, .start, hring, hfault⟩
  | ring hring hm _ ih =>
    obtain ⟨ms, k, r, alarms, hrung, hring', hfault⟩ := ih hx
    exact ⟨_, k, r, alarms, .ring hring hm hrung, hring', hfault⟩

/-- A loop that stops before its budget is used up has come to an alarm that stops it. -/
theorem ringAll_eq_error {budget : Nat} {f : Fault} (h : ringAll p now budget n = .error f) :
    f = .stalled ∨ ∃ ms k r alarms, Rung p now n ms k ∧ k.alarms.ring? now = some (r, alarms) ∧
      handleRing p { k with alarms } r = .error f := by
  induction budget generalizing n with
  | zero =>
    unfold ringAll at h
    split at h
    · exact .inl (Except.error.inj h).symm
    · cases h
  | succ budget ih =>
    unfold ringAll ringNext at h
    cases hring : n.alarms.ring? now with
    | none =>
      rw [hring] at h
      cases h
    | some e =>
      obtain ⟨r, alarms⟩ := e
      simp only [hring, Option.map_some] at h
      cases hm : handleRing p { n with alarms } r with
      | error f' =>
        rw [hm] at h
        obtain rfl : f' = f := Except.error.inj h
        exact .inr ⟨[], n, r, alarms, .start, hring, hm⟩
      | ok m =>
        rw [hm] at h
        rcases ih h with hstalled | ⟨ms, k, r', alarms', hrung, hring', hfault⟩
        · exact .inl hstalled
        · exact .inr ⟨_, k, r', alarms', .ring hring hm hrung, hring', hfault⟩

/-- The record of a loop that has settled: the alarms that rang, and that none is due any more. -/
theorem Rings.rung (h : Rings p now n ms m) :
    ∃ rs, ms = rs ++ [⟨m, .settled now, m⟩] ∧ Rung p now n rs m ∧ m.alarms.ring? now = none := by
  induction h with
  | settled hnone => exact ⟨[], rfl, .start, hnone⟩
  | ring hring hm _ ih =>
    obtain ⟨rs, rfl, hrung, hnone⟩ := ih
    exact ⟨_, rfl, .ring hring hm hrung, hnone⟩

theorem Rung.eq_of_nil (h : Rung p now n [] k) : k = n := by
  cases h
  rfl

theorem Rung.trail (h : Rung p now n ms k) : Trail p n ms k := by
  induction h with
  | start => exact .nil (.refl _)
  | ring hring hm _ ih => exact .cons (.refl _) (.ring hring hm) ih

/-! ## Measures -/

variable {I : Node ρ → Prop} {μ : Node ρ → Nat} {budget : Nat}

/-- The loop has no more turns than the measure at its start. -/
theorem Rung.length_add_le
    (hstep : ∀ n r alarms m, I n → n.alarms.ring? now = some (r, alarms) →
      handleRing p { n with alarms } r = .ok m → I m ∧ μ m < μ n)
    (h : Rung p now n ms k) (hn : I n) : I k ∧ ms.length + μ k ≤ μ n := by
  induction h with
  | start => exact ⟨hn, Nat.le_of_eq (Nat.zero_add _)⟩
  | ring hring hm _ ih =>
    obtain ⟨hI, hlt⟩ := hstep _ _ _ _ hn hring hm
    obtain ⟨hk, hle⟩ := ih hI
    refine ⟨hk, ?_⟩
    rw [List.length_cons]
    omega

/-- A budget that is no less than the measure is enough. -/
theorem ringAll_settles
    (hstep : ∀ n r alarms m, I n → n.alarms.ring? now = some (r, alarms) →
      handleRing p { n with alarms } r = .ok m → I m ∧ μ m < μ n)
    (hpos : ∀ n e, I n → n.alarms.ring? now = some e → 0 < μ n) (hn : I n) (hle : μ n ≤ budget) :
    Settles p now n (ringAll p now budget n) := by
  induction budget generalizing n with
  | zero =>
    have hnone : n.alarms.ring? now = none := by
      by_contra hsome
      obtain ⟨e, he⟩ := Option.ne_none_iff_exists'.1 hsome
      have := hpos n e hn he
      omega
    have hdue : n.alarms.due? now = none := by simpa [AlarmTable.ring?] using hnone
    rw [ringAll, hdue]
    exact .settled hnone
  | succ budget ih =>
    rw [ringAll, ringNext]
    cases hring : n.alarms.ring? now with
    | none => exact .settled hring
    | some e =>
      obtain ⟨r, alarms⟩ := e
      rw [Option.map_some]
      dsimp only
      cases hm : handleRing p { n with alarms } r with
      | error f => exact .stopped hring hm
      | ok m =>
        obtain ⟨hI, hlt⟩ := hstep n r alarms m hn hring hm
        exact .ring hring hm (ih hI (by omega))

end TrickleNet.Node
