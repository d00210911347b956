import Mathlib
import TrickleNet.Proofs.Finish
import TrickleNet.Proofs.Rang
/-!
# Refused requests

`Node.reason?` is a list of reasons: what a request asks of the node that it is made to, and how it
is refused when the node does not meet it.  It is decided before anything else about a request
(`Node.Judged`): a request with a reason against it is answered with that reason, changes nothing
and raises no fault, and one without a reason is not refused (`judged_perform`).

Two requests take steps that could be refused on the way.  To join starts the trickle timer of an
instance that was entered just before, so that step is granted.  An advertisement is entered into
the record of its sender before the next one is predicted, and to predict asks for the record of the
preferred parent.  In a reachable node the preferred parent always has one (`Reachable.registered`),
so neither step is refused.
-/

namespace TrickleNet.Node

variable {ρ : Type} {p : Platform} {n : Node ρ} {i : InstanceId} {a : Address} {d : Dodag}
  {now : Instant} {delay listen jitter : Span}

/-- What is asked of an instance, whose absence is a reason of its own. -/
def within (n : Node ρ) (i : InstanceId) (reason : Dodag → Option Refusal) : Option Refusal :=
  match n.dodags.find? i with
  | none => some .unknownInstance
  | some d => reason d

/-- The parent has to be registered. -/
def ofParent (a : Address) (d : Dodag) : Option Refusal :=
  if d.parents.contains a then none else some .unknownParent

/-- What is asked of a node that is to join an instance. -/
def outside (p : Platform) (n : Node ρ) (i : InstanceId) (params : TrickleParams) :
    Option Refusal :=
  if ¬params.Valid then some .invalidParams
  else if n.dodags.contains i then some .instanceExists
  else if p.maxInstances ≤ n.dodags.size then some .tooManyInstances
  else none

/-- Why a node refuses a request, if it does. -/
def reason? (p : Platform) (n : Node ρ) : Operation → Option Refusal
  | .join i params => n.outside p i params
  | .addParent i a => n.within i fun d =>
    if !d.parents.contains a && p.maxParents ≤ d.parents.size then some .tooManyParents else none
  | .removeParent i a | .command (.setPreferred i (some a)) => n.within i (ofParent a)
  | .leave i | .scheduleReception i _ _ _ _ | .command (.resetDio i _) | .command (.scheduleDao i)
  | .command (.dioConsistent i) | .command (.dioReceived i _ _) | .command (.setPreferred i none)
  | .command (.solicit i) => n.within i fun _ => none
  | .handleTimer | .command .restartUpkeep => none

/-- The answer to a request that has this reason against it, or none: it is refused at once, or it
is not refused. -/
def Judged (n : Node ρ) (x : Checked (Outcome (Node ρ))) : Option Refusal → Prop
  | some r => x = .ok (.refused r n)
  | none => ∀ out, x = .ok out → out.refusal = none

namespace Judged

variable {x : Checked (Outcome (Node ρ))} {r? : Option Refusal} {out : Outcome (Node ρ)}

theorem ok (h : out.refusal = none) : n.Judged (.ok out) none := by
  intro out' hout
  obtain rfl := Except.ok.inj hout
  exact h

/-- The two ways to answer a request to an instance. -/
theorem within {reason : Dodag → Option Refusal}
    (hgone : n.dodags.find? i = none → x = .ok (.refused .unknownInstance n))
    (hjoined : ∀ d, n.dodags.find? i = some d → n.Judged x (reason d)) :
    n.Judged x (n.within i reason) := by
  unfold Node.within
  cases hd : n.dodags.find? i with
  | none => exact hgone hd
  | some d => exact hjoined d hd

/-- The answer is the reason, and with a reason nothing has changed. -/
theorem refusal_eq (h : n.Judged x r?) (hout : x = .ok out) :
    out.refusal = r? ∧ (out.refusal.isSome → out.state = n) := by
  cases r? with
  | none =>
    have hgranted : out.refusal = none := h out hout
    exact ⟨hgranted, fun hsome => by rw [hgranted] at hsome; cases hsome⟩
  | some r =>
    obtain rfl := Except.ok.inj (hout.symm.trans h)
    exact ⟨rfl, fun _ => rfl⟩

end Judged

/-! ## Requests that are judged by what they find -/

theorem judged_leave : n.Judged (.ok (n.leave i)) (n.within i fun _ => none) := by
  refine .within (fun hgone => ?_) fun d hd => .ok ?_
  · rw [leave, if_neg (by simp [Table.find?_eq_none_iff.1 hgone])]
  · rw [leave, if_pos (Table.contains_of_find? hd)]
    rfl

theorem judged_addParent : n.Judged (.ok (addParent p n i a)) (n.reason? p (.addParent i a)) := by
  refine .within (fun hgone => ?_) fun d hd => ?_
  · rw [addParent, hgone]
  simp only [addParent, hd]
  cases hregistered : d.parents.contains a with
  | true => exact .ok rfl
  | false =>
    by_cases hfull : p.maxParents ≤ d.parents.size
    · simp only [hfull]
      rfl
    · simp only [hfull, decide_false, Bool.and_false]
      exact .ok rfl

theorem judged_removeParent : n.Judged (.ok (n.removeParent i a)) (n.within i (ofParent a)) := by
  refine .within (fun hgone => ?_) fun d hd => ?_
  · rw [removeParent, hgone]
  simp only [removeParent, hd, ofParent]
  cases d.parents.contains a with
  | true => exact .ok rfl
  | false => rfl

/-- A registered parent can be preferred, and so can none; whichever was preferred before. -/
theorem refusal_setPreferred {b : Option Address} (hd : n.dodags.find? i = some d)
    (hb : ∀ a ∈ b, d.parents.contains a = true) : (n.setPreferred i b).refusal = none := by
  have hany : ¬(b.any fun a => !d.parents.contains a) = true := by
    cases b with
    | none => exact Bool.false_ne_true
    | some a => simp [hb a rfl]
  simp only [setPreferred, hd]
  rw [if_neg hany]
  split
  · rfl
  · cases d.preferred <;> rfl

theorem judged_setPreferred_some :
    n.Judged (.ok (n.setPreferred i (some a))) (n.within i (ofParent a)) := by
  refine .within (fun hgone => ?_) fun d hd => ?_
  · rw [setPreferred, hgone]
  unfold ofParent
  cases hregistered : d.parents.contains a with
  | true =>
    refine .ok (refusal_setPreferred hd ?_)
    rintro _ ⟨⟩
    exact hregistered
  | false =>
    simp only [setPreferred, hd, Option.any_some, hregistered]
    rfl

theorem judged_setPreferred_none :
    n.Judged (.ok (n.setPreferred i none)) (n.within i fun _ => none) := by
  refine .within (fun hgone => ?_) fun d hd => .ok ?_
  · rw [setPreferred, hgone]
  · exact refusal_setPreferred hd (by rintro a ⟨⟩)

theorem judged_dioConsistent :
    n.Judged (.ok (n.dioConsistent i)) (n.within i fun _ => none) := by
  refine .within (fun hgone => ?_) fun d hd => .ok ?_
  · rw [dioConsistent, hgone]
  · rw [dioConsistent, hd]
    rfl

theorem judged_solicit : n.Judged (n.solicit i) (n.within i fun _ => none) := by
  refine .within (fun hgone => ?_) fun d hd => ?_
  · rw [solicit, hgone]
  simp only [solicit, hd]
  cases d.preferred with
  | none => exact .ok rfl
  | some a =>
    intro out hout
    obtain ⟨m, -, hout⟩ := Checked.bind_eq_ok_iff.1 hout
    obtain rfl := Except.ok.inj hout
    rfl

theorem find?_putDodag_self : (n.putDodag i d).dodags.find? i = some d := by
  simp [Node.putDodag]

section Draws

variable [RandomSource ρ]

theorem judged_resetDio {force : Bool} :
    n.Judged (resetDio p n i force now) (n.within i fun _ => none) := by
  refine .within (fun hgone => ?_) fun d hd => ?_
  · rw [resetDio, hgone]
  intro out hout
  simp only [resetDio, hd] at hout
  split at hout
  · obtain rfl := Except.ok.inj hout
    rfl
  · obtain ⟨m, -, hout⟩ := Checked.bind_eq_ok_iff.1 hout
    obtain ⟨k, -, hout⟩ := Checked.bind_eq_ok_iff.1 hout
    obtain rfl := Except.ok.inj hout
    rfl

theorem judged_scheduleDao : n.Judged (scheduleDao p n i now) (n.within i fun _ => none) := by
  refine .within (fun hgone => ?_) fun d hd => ?_
  · rw [scheduleDao, if_pos (by simp [Table.find?_eq_none_iff.1 hgone])]
  rw [scheduleDao, if_neg (by simp [Table.contains_of_find? hd])]
  split
  · exact .ok rfl
  · intro out hout
    obtain ⟨ticks, -, hout⟩ := Checked.bind_eq_ok_iff.1 hout
    obtain rfl := Except.ok.inj hout
    rfl

/-- To join is to enter the instance and to start its trickle timer, unless there is a reason not
to. -/
theorem join_eq {params : TrickleParams} (h : n.outside p i params = none) :
    join p n i params now = resetDio p (n.putDodag i (.new params)) i true now := by
  unfold outside at h
  split_ifs at h with hvalid hexists hfull
  rw [join, if_neg (not_not.2 hvalid), if_neg hexists, if_neg hfull]

/-- The trickle timer of an instance that was just entered is started. -/
theorem refusal_resetDio_entered {force : Bool} {out : Outcome (Node ρ)}
    (h : resetDio p (n.putDodag i d) i force now = .ok out) : out.refusal = none := by
  have hjudged : (n.putDodag i d).Judged (resetDio p (n.putDodag i d) i force now)
      ((n.putDodag i d).within i fun _ => none) := judged_resetDio
  rw [within, find?_putDodag_self] at hjudged
  exact hjudged out h

theorem judged_join {params : TrickleParams} :
    n.Judged (join p n i params now) (n.outside p i params) := by
  cases hreason : n.outside p i params with
  | none =>
    rw [join_eq hreason]
    exact fun out hout => refusal_resetDio_entered hout
  | some r =>
    unfold outside at hreason
    unfold join
    split_ifs at hreason ⊢ <;> rw [← Option.some.inj hreason] <;> rfl

/-- A reset is no way to leave an instance. -/
theorem contains_resetDio {force : Bool} {out : Outcome (Node ρ)}
    (h : resetDio p n i force now = .ok out) (hi : n.dodags.contains i = true) :
    out.state.dodags.contains i = true := by
  rcases resetDio_eq_ok h with hsame | ⟨d, k, -, hk, hm⟩
  · rw [hsame]
    exact hi
  · obtain ⟨-, rfl⟩ := count_eq_ok hk
    obtain ⟨split, d', source, -, hstate⟩ := beginInterval_eq_ok (d := d.restart)
      (by simp [emit, putDodag]) hm
    rw [hstate]
    exact Table.contains_of_find? find?_putDodag_self

/-- Only a full counter of resets keeps a node from joining that has no reason to refuse. -/
theorem join_finishes_of_outside {params : TrickleParams} (h : n.outside p i params = none) :
    (join p n i params now).FinishesBelow (n.counts.dioResets + 1) := by
  rw [join_eq h, resetDio, find?_putDodag_self]
  refine .bind (.bind (.bind (.addChecked (Nat.le_refl _)) fun _ _ => .ok _) fun _ _ => .ok _)
    fun k hk => .bind ?_ fun _ _ => .ok _
  obtain ⟨-, hcounted⟩ := count_eq_ok hk
  have hfind : (k.emit (.trickleReset i true)).dodags.find? i =
      some (Dodag.new params).restart := by
    rw [hcounted]
    exact find?_putDodag_self
  have hfresh : (Dodag.new params).restart.Within 0 :=
    ⟨Nat.le_refl 0, Nat.le_refl 0, Nat.le_refl 0, Nat.le_refl 0⟩
  unfold beginInterval
  rw [hfind]
  exact .bind ((Dodag.begin_finishes hfresh).mono (Nat.le_add_left 1 _)) fun _ _ => .ok _

theorem join_granted {params : TrickleParams} (h : n.outside p i params = none)
    (hroom : n.counts.dioResets + 1 < wordLimit32) :
    ∃ m, join p n i params now = .ok (.granted m) ∧ m.dodags.contains i = true := by
  have hfinishes : (join p n i params now).FinishesBelow _ := join_finishes_of_outside h
  rw [join_eq h] at hfinishes ⊢
  have hentered : (n.putDodag i (.new params)).dodags.contains i = true :=
    Table.contains_of_find? find?_putDodag_self
  cases hout : resetDio p (n.putDodag i (.new params)) i true now with
  | error f => exact absurd (hfinishes f hout).2 (Nat.not_le.2 hroom)
  | ok out =>
    have hgranted : out = .granted out.state := by
      rw [Outcome.granted, ← refusal_resetDio_entered hout]
    exact ⟨out.state, congrArg Except.ok hgranted, contains_resetDio hout hentered⟩

end Draws

/-! ## Requests that look the preferred parent up -/

/-- The window of a parent that has a record is predicted. -/
theorem refusal_scheduleReception {m : Node ρ} (hd : m.dodags.find? i = some d)
    (hregistered : d.preferred = some a → d.parents.contains a = true) :
    (m.scheduleReception i a delay listen jitter now).refusal = none := by
  simp only [scheduleReception, hd]
  split
  · rfl
  · rename_i hpref
    obtain ⟨w, hw⟩ := Table.contains_iff.1 (hregistered (not_not.1 hpref))
    simp only [hw]
    rfl

/-- The window of a parent is predicted whose record was just written. -/
theorem refusal_scheduleReception_heard {m : Node ρ} {w : Watch}
    (hm : m.dodags = (n.putWatch i d a w).dodags) :
    (m.scheduleReception i a delay listen jitter now).refusal = none := by
  have hfind : m.dodags.find? i = some { d with parents := d.parents.insert a w } := by
    rw [hm]
    exact find?_putDodag_self
  exact refusal_scheduleReception hfind fun _ => by simp

theorem judged_scheduleReception
    (hregistered : ∀ d, n.dodags.find? i = some d → d.preferred = some a →
      d.parents.contains a = true) :
    n.Judged (.ok (n.scheduleReception i a delay listen jitter now))
      (n.within i fun _ => none) := by
  refine .within (fun hgone => ?_) fun d hd => .ok ?_
  · rw [scheduleReception, hgone]
  · exact refusal_scheduleReception hd (hregistered d hd)

theorem judged_dioReceived {l : Lookahead} (hregistered : ∀ d, n.dodags.find? i = some d →
    d.preferred = some a → d.parents.contains a = true) :
    n.Judged (dioReceived p n i a l now) (n.within i fun _ => none) := by
  refine .within (fun hgone => ?_) fun d hd => ?_
  · rw [dioReceived, hgone]
  by_cases hpref : d.preferred = some a
  swap
  · simp only [dioReceived, hd, if_pos hpref]
    exact .ok rfl
  obtain ⟨w, hw⟩ := Table.contains_iff.1 (hregistered d hd hpref)
  rw [dioReceived_eq hd hpref hw]
  cases w.reception l.listen (l.jitter + p.receptionSkew) now with
  | first =>
    refine .ok (refusal_scheduleReception_heard (n := n) (d := d) (w := { w with
      stage := .awaitingWindow }) ?_)
    split <;> rfl
  | answer => exact .ok rfl
  | late =>
    intro out hout
    obtain ⟨-, -, k, hk, -, -, -, rfl⟩ := lateHeard_eq_ok hout
    exact refusal_scheduleReception_heard hk
  | repeated => exact .ok (refusal_scheduleReception hd (hregistered d hd))
  | early | overlooked => exact .ok rfl

/-! ## Every request -/

variable [RandomSource ρ]

/-- The preferred parent of a reachable node is a candidate parent. -/
theorem Reachable.registered (hn : Reachable p n) (hd : n.dodags.find? i = some d)
    (hpref : d.preferred = some a) : d.parents.contains a = true := by
  have htrack := track_of_find? (a := a) hd
  obtain ⟨w, hw⟩ := (hn.soundTracks i a).registered (by rw [htrack]; exact hpref)
  rw [htrack] at hw
  exact Table.contains_of_find? hw

/-- Every request is answered with the reason against it. -/
theorem judged_perform {o : Operation} (hn : Reachable p n) :
    n.Judged (n.perform p o now) (n.reason? p o) := by
  cases o with
  | join i params => exact judged_join
  | leave i => exact judged_leave
  | addParent i a => exact judged_addParent
  | removeParent i a => exact judged_removeParent
  | scheduleReception i a => exact judged_scheduleReception fun d hd => hn.registered hd
  | handleTimer =>
    intro out hout
    obtain ⟨m, -, hout⟩ := Checked.bind_eq_ok_iff.1 hout
    obtain rfl := Except.ok.inj hout
    rfl
  | command c =>
    cases c with
    | resetDio i force => exact judged_resetDio
    | scheduleDao i => exact judged_scheduleDao
    | dioConsistent i => exact judged_dioConsistent
    | dioReceived i a l => exact judged_dioReceived fun d hd => hn.registered hd
    | setPreferred i b =>
      cases b with
      | none => exact judged_setPreferred_none
      | some a => exact judged_setPreferred_some
    | solicit i => exact judged_solicit
    | restartUpkeep => exact .ok rfl

/-- A request to a reachable node is refused exactly for the reason that there is against it, and
then the node is as it was, all of it; nor does a request that is refused end in a fault.

To join asks, in this order, for valid parameters, for an instance that the node has not joined, and
for room.  If there is nothing against it the node joins, as long as the counter of resets has room,
and the trickle timer of the instance entered is never refused its start.  The preferred parent of
an instance always has a record, so neither a prediction nor an advertisement is refused for the
lack of one. -/
theorem refused_requests_change_nothing {n : Node ρ} (hn : Reachable p n) :
    (∀ o now out, n.perform p o now = .ok out →
      out.refusal = n.reason? p o ∧ (out.refusal.isSome → out.state = n)) ∧
    (∀ o now r, n.reason? p o = some r → n.perform p o now = .ok (.refused r n)) ∧
    (∀ i params now, n.outside p i params = none →
      (n.counts.dioResets + 1 < wordLimit32 →
        ∃ m, n.perform p (.join i params) now = .ok (.granted m) ∧ m.dodags.contains i = true) ∧
      n.perform p (.join i params) now = resetDio p (n.putDodag i (.new params)) i true now ∧
      ∀ out, resetDio p (n.putDodag i (.new params)) i true now = .ok out → out.refusal = none) ∧
    ∀ i d a, n.dodags.find? i = some d → d.preferred = some a → (d.parents.find? a).isSome ∧
      (∀ delay listen jitter now,
        (n.scheduleReception i a delay listen jitter now).refusal = none) ∧
      ∀ l now out, dioReceived p n i a l now = .ok out → out.refusal = none := by
  refine ⟨fun o now out hout => (judged_perform hn).refusal_eq hout, fun o now r hr => ?_,
    fun i params now hreason => ?_, fun i d a hd hpref => ?_⟩
  · have hjudged : n.Judged (n.perform p o now) (n.reason? p o) := judged_perform hn
    rw [hr] at hjudged
    exact hjudged
  · exact ⟨join_granted hreason, join_eq hreason, fun out hout => refusal_resetDio_entered hout⟩
  · have hnone : n.within i (fun _ => none) = none := by rw [within, hd]
    refine ⟨hn.registered hd hpref, fun delay listen jitter now => ?_, fun l now out hout => ?_⟩
    · exact refusal_scheduleReception hd fun h => hn.registered hd h
    · have hjudged : n.Judged (dioReceived p n i a l now) (n.within i fun _ => none) :=
        judged_dioReceived fun d hd => hn.registered hd
      rw [hnone] at hjudged
      exact hjudged out hout

/-- Requests to a node that then belongs to as many instances as it can, and in one of them has as
many candidate parents as it can; the first of these is preferred and has been heard. -/
def crowding : List (Operation × Instant) :=
  [(.join 1 {}, .zero), (.join 2 {}, .zero)] ++
    (List.range 8).map (fun k => (.addParent 1 (.linkLocal (UInt64.ofNat k)), .zero)) ++
    [(.command (.setPreferred 1 (some (.linkLocal 0))), .zero),
      (.command (.dioReceived 1 (.linkLocal 0) {}), .zero)]

/-- Requests that the node refuses after these, and why. -/
def refusedWhenCrowded : List (Operation × Refusal) :=
  [(.join 1 { minExponent := 33 }, .invalidParams), (.join 1 {}, .instanceExists),
    (.join 3 {}, .tooManyInstances), (.leave 3, .unknownInstance),
    (.addParent 1 (.linkLocal 8), .tooManyParents),
    (.removeParent 1 (.linkLocal 8), .unknownParent),
    (.command (.setPreferred 1 (some (.linkLocal 8))), .unknownParent),
    (.command (.scheduleDao 3), .unknownInstance)]

/-- A crowded node refuses them all and stays what it is, and it hears its preferred parent once
more. -/
theorem crowded_node_is_unchanged :
    ∃ ms n, record .embedded crowding (.new (Generator.fixed 0) .zero true) = .ok (ms, n) ∧
      (∀ x ∈ refusedWhenCrowded, n.perform .embedded x.1 .zero = .ok (.refused x.2 n)) ∧
      ∃ out, dioReceived .embedded n 1 (.linkLocal 0) {} (.ofTicks 500) = .ok out ∧
        out.refusal = none := by
  obtain ⟨ms, n, d, out, hn, hreasons, hd, hpref, hout⟩ :
      ∃ ms n d out, record .embedded crowding (.new (Generator.fixed 0) .zero true) = .ok (ms, n) ∧
        refusedWhenCrowded.map (fun x => n.reason? .embedded x.1) =
          refusedWhenCrowded.map (fun x => some x.2) ∧
        n.dodags.find? 1 = some d ∧ d.preferred = some (.linkLocal 0) ∧
        dioReceived .embedded n 1 (.linkLocal 0) {} (.ofTicks 500) = .ok out :=
    ⟨_, _, _, _, rfl, rfl, rfl, rfl, rfl⟩
  obtain ⟨-, hrefused, -, hheard⟩ := refused_requests_change_nothing (reachable_of_record hn)
  refine ⟨ms, n, hn, fun x hx => ?_, out, hout, ?_⟩
  · exact hrefused x.1 .zero x.2 (List.map_inj_left.1 hreasons x hx)
  · exact (hheard 1 d (.linkLocal 0) hd hpref).2.2 {} (.ofTicks 500) out hout

end TrickleNet.Node
