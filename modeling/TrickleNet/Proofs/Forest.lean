import Mathlib
import TrickleNet.Proofs.Standing
/-!
# The forest of preferred parents

The preferred parents of a simulated network make a forest: its trees are rooted in the stations
that were made roots, and to follow preferred parents leads to such a station without a detour.

The distance from a root saturates at `maxHop`, so it does not decrease along the way and cannot be
the reason for this.  The reason is the order in which stations join.  A station joins through one
that has joined before, and takes its place for good but for further candidate parents (`Shift`).
So when it joins, it is not on the way of its parent to the root, and it never will be.
-/

namespace TrickleNet

/-- The place of a station in the network. -/
structure Place extends Standing where
  /-- The distance from a root. -/
  hop : Nat

namespace Station

variable {t t' : Station} {P : Place}

/-- The place of a station that has joined. -/
def place? (t : Station) : Option Place :=
  t.hop.bind fun hop => t.standing?.map fun st => { st with hop }

theorem place?_eq_some_iff :
    t.place? = some P ↔ t.hop = some P.hop ∧ t.standing? = some P.toStanding := by
  unfold place?
  constructor
  · intro h
    obtain ⟨hop, hhop, h⟩ := Option.bind_eq_some_iff.1 h
    obtain ⟨st, hst, rfl⟩ := Option.map_eq_some_iff.1 h
    exact ⟨hhop, hst⟩
  · rintro ⟨hhop, hst⟩
    rw [hhop, hst]
    rfl

theorem place?_eq_some {hop : Nat} {st : Standing} (hhop : t.hop = some hop)
    (hstanding : t.standing? = some st) : t.place? = some { st with hop } :=
  place?_eq_some_iff.2 ⟨hhop, hstanding⟩

theorem place?_eq_none (h : t.standing? = none) : t.place? = none := by
  unfold place?
  rw [h]
  cases t.hop <;> rfl

theorem Stays.place?_eq (h : t.Stays t') : t'.place? = t.place? := by
  unfold place?
  rw [h.1, h.2]

/-- A station knows its distance from a root if and only if it has joined. -/
def InStep (t : Station) : Prop := t.hop.isSome = t.standing?.isSome

theorem InStep.exists_place (h : t.InStep) {hop : Nat} (hhop : t.hop = some hop) :
    ∃ P, t.place? = some P ∧ P.hop = hop := by
  unfold InStep at h
  rw [hhop, Option.isSome_some] at h
  obtain ⟨st, hst⟩ := Option.isSome_iff_exists.1 h.symm
  exact ⟨{ st with hop }, place?_eq_some hhop hst, rfl⟩

theorem isJoined_eq : t.isJoined simulatedInstance = t.standing?.isSome := by
  rw [isJoined, standing?, Node.standing?, Option.isSome_map]
  rfl

theorem preferred?_eq : t.preferred? simulatedInstance = t.standing?.bind Standing.preferred := by
  rw [preferred?, standing?, Node.standing?]
  cases t.node.dodags.find? simulatedInstance <;> rfl

end Station

namespace Simulation

variable {s s' : Simulation} {xs : List Scene} {c : Move} {t t' u v : Station} {a b p r : Address}
  {P Q : Place} {path : List Address}

/-! ## What a move does to places -/

theorem Takes.congr (haddress : u.address = t.address) (h : u.Stays t) (h' : s.Takes c t t')
    (h'' : t'.Stays v) : s.Takes c u v := by
  cases h' with
  | same h' => exact .same ((h.trans h').trans h'')
  | root hc hnew hhop hstanding =>
    exact .root (haddress ▸ hc) (h.2.symm.trans hnew) (h''.1.trans hhop) (h''.2.trans hstanding)
  | heard hc hfind hhop hhears => exact .heard hc hfind hhop ((h.hears hhears).andThen h'')

/-- After a move a station stands where it stood before, or where the move has put it.  One that was
not there before stood nowhere. -/
theorem Sound.takes_of_proceed (hs : s.Sound) (h : s.proceed c = .ok s')
    (ht' : s'.stations.find? a = some t') :
    ∃ t, t.address = a ∧
      (s.stations.find? a = some t ∨ s.stations.find? a = none ∧ t.hop = none ∧
        t.standing? = none) ∧
      s.Takes c t t' := by
  rcases station_of_proceed h ht' with ⟨t, ht, hsame⟩ | ⟨t, u, hcalled, rfl, rfl⟩
  · refine ⟨t, hs.address a t ht, .inl ht, .same ?_⟩
    rcases hsame with rfl | ⟨ready, rfl⟩
    · exact .refl t'
    · exact ⟨rfl, rfl⟩
  · have htakes := hs.takes hcalled
    have hrested : u.Stays u.rested := ⟨rfl, rfl⟩
    rw [(hs.after_call hcalled).1]
    rcases hcalled.before hs with ⟨seed, -, rfl⟩ | ⟨v, hv, hsame⟩
    · refine ⟨_, rfl, .inr ⟨hs.find?_nextAddress, rfl, rfl⟩, ?_⟩
      exact htakes.congr rfl (.refl _) hrested
    · have haddress := hs.address _ v hv
      refine ⟨v, haddress, .inl hv, htakes.congr haddress ?_ hrested⟩
      rcases hsame with rfl | rfl
      · exact .refl t
      · exact ⟨rfl, rfl⟩

/-- Stations that know their distance from a root are those that have joined. -/
def InStep (s : Simulation) : Prop := ∀ a t, s.stations.find? a = some t → t.InStep

theorem InStep.proceed (hstep : s.InStep) (hs : s.Sound)
    (h : s.proceed c = .ok s') : s'.InStep := by
  intro a t' ht'
  obtain ⟨t, -, ht, htakes⟩ := hs.takes_of_proceed h ht'
  have hbefore : t.InStep := by
    rcases ht with ht | ⟨-, hhop, hstanding⟩
    · exact hstep a t ht
    · rw [Station.InStep, hhop, hstanding]
      rfl
  unfold Station.InStep at hbefore ⊢
  cases htakes with
  | same hstay => rw [hstay.1, hstay.2, hbefore]
  | root hc hnew hhop hstanding => rw [hhop, hstanding]; rfl
  | heard hc hfind hhop hhears =>
    cases hhears with
    | stays hstay => rw [hstay.1, hstay.2, hbefore]
    | joins hnew hhop hstanding => rw [hhop, hstanding]; rfl
    | registers hhop hlt hstanding hhop' hstanding' hparents => rw [hhop', hhop, hstanding']; rfl

theorem Run.inStep {seed : UInt64} (hrun : Run (.new seed) xs s) : s.InStep :=
  hrun.invariant_of_sound (fun _ _ _ hs hstep h => hstep.proceed hs h) fun _ _ h => by cases h

/-- The place of the station with an address. -/
def place? (s : Simulation) (a : Address) : Option Place := (s.stations.find? a).bind Station.place?

/-- How a move may change the place of the station `a`, given the places of all stations. -/
inductive Shift (c : Move) (places : Address → Option Place) (a : Address) :
    Option Place → Option Place → Prop
  | same {P : Option Place} : Shift c places a P P
  | root : c = .form a → Shift c places a none (some ⟨⟨none, []⟩, 0⟩)
  | join {p : Address} {P : Place} : c = .event → places p = some P →
      Shift c places a none (some ⟨⟨some p, [p]⟩, min (P.hop + 1) maxHop⟩)
  | register {P Q : Place} {q : Address} {parents : List Address} : places q = some Q →
      Q.hop < P.hop → (∀ r ∈ parents, r ∈ P.parents ∨ r = q) →
        Shift c places a (some P) (some { P with parents })

theorem Sound.shift (hs : s.Sound) (hstep : s.InStep) (h : s.proceed c = .ok s') (a : Address) :
    Shift c s.place? a (s.place? a) (s'.place? a) := by
  cases ht' : s'.stations.find? a with
  | none =>
    have hnone : s.stations.find? a = none := by
      rw [Table.find?_eq_none_iff, ← Bool.not_eq_true] at ht' ⊢
      exact fun ha => ht' (contains_of_proceed h ha)
    rw [place?, place?, ht', hnone]
    exact .same
  | some t' =>
    obtain ⟨t, rfl, ht, htakes⟩ := hs.takes_of_proceed h ht'
    have hplace : s.place? t.address = t.place? := by
      rcases ht with ht | ⟨hnone, -, hstanding⟩
      · rw [place?, ht, Option.bind_some]
      · rw [place?, hnone, Option.bind_none, Station.place?_eq_none hstanding]
    rw [hplace, place?, ht', Option.bind_some]
    cases htakes with
    | same hstay =>
      rw [hstay.place?_eq]
      exact .same
    | root hc hnew hhop hstanding =>
      rw [Station.place?_eq_none hnew, Station.place?_eq_some hhop hstanding]
      exact .root hc
    | @heard sender u hop hc hu huhop hhears =>
      obtain ⟨Q, hQ, rfl⟩ := (hstep sender u hu).exists_place huhop
      have hsender : s.place? sender = some Q := by rw [place?, hu, Option.bind_some, hQ]
      cases hhears with
      | stays hstay =>
        rw [hstay.place?_eq]
        exact .same
      | joins hnew hhop hstanding =>
        rw [Station.place?_eq_none hnew, Station.place?_eq_some hhop hstanding]
        exact .join hc hsender
      | @registers hop st parents hhop hlt hstanding hhop' hstanding' hparents =>
        rw [Station.place?_eq_some hhop hstanding,
          Station.place?_eq_some (hhop'.trans hhop) hstanding']
        exact .register (P := ⟨st, hop⟩) hsender hlt hparents

/-- A place is taken for good, but for the candidate parents. -/
theorem Shift.kept {places : Address → Option Place} {o : Option Place}
    (h : Shift c places a (some P) o) :
    ∃ Q, o = some Q ∧ Q.hop = P.hop ∧ Q.preferred = P.preferred := by
  cases h with
  | same => exact ⟨P, rfl, rfl, rfl⟩
  | register hq hlt hparents => exact ⟨_, rfl, rfl, rfl⟩

theorem Sound.place_kept (hs : s.Sound) (hstep : s.InStep) (h : s.proceed c = .ok s')
    (hP : s.place? a = some P) :
    ∃ Q, s'.place? a = some Q ∧ Q.hop = P.hop ∧ Q.preferred = P.preferred := by
  have ha := hs.shift hstep h a
  rw [hP] at ha
  exact ha.kept

/-- A place that is taken after a move was taken before, or the move has given it away. -/
theorem Shift.origin {places : Address → Option Place} {o : Option Place}
    (h : Shift c places a o (some P)) :
    (∃ P₀, o = some P₀ ∧ P.hop = P₀.hop ∧ P.preferred = P₀.preferred ∧
      ∀ q ∈ P.parents, q ∈ P₀.parents ∨ ∃ Q, places q = some Q ∧ Q.hop < P.hop) ∨
    (o = none ∧ c = .form a ∧ P = ⟨⟨none, []⟩, 0⟩) ∨
    ∃ p Q, o = none ∧ c = .event ∧ places p = some Q ∧
      P = ⟨⟨some p, [p]⟩, min (Q.hop + 1) maxHop⟩ := by
  cases h with
  | same => exact .inl ⟨P, rfl, rfl, rfl, fun q hq => .inl hq⟩
  | root hc => exact .inr (.inl ⟨rfl, hc, rfl⟩)
  | join hc hp => exact .inr (.inr ⟨_, _, rfl, hc, hp, rfl⟩)
  | @register P Q q parents hq hlt hparents =>
    refine .inl ⟨P, rfl, rfl, rfl, fun r hr => ?_⟩
    rcases hparents r hr with hr | rfl
    · exact .inl hr
    · exact .inr ⟨Q, hq, hlt⟩

/-! ## The forest -/

/-- The station belongs to the simulated instance. -/
def Joined (s : Simulation) (a : Address) : Prop :=
  ∃ t, s.stations.find? a = some t ∧ t.isJoined simulatedInstance = true

/-- The station was made a root: asked to form the instance, it did. -/
def Founded (xs : List Scene) (a : Address) : Prop :=
  ∃ x ∈ xs, x.move = .form a ∧ ¬x.before.Joined a ∧ x.after.Joined a

/-- There was a time when the first station had joined and the second one had not. -/
def JoinedBefore (xs : List Scene) (p a : Address) : Prop :=
  ∃ x ∈ xs, x.before.Joined p ∧ ¬x.before.Joined a

/-- To follow preferred parents from a station leads along a path to a root. -/
inductive Climbs (s : Simulation) : Address → List Address → Address → Prop
  | root {a : Address} {t : Station} : s.stations.find? a = some t → t.isRoot = true →
      t.preferred? simulatedInstance = none → Climbs s a [a] a
  | step {a p r : Address} {t : Station} {path : List Address} : s.stations.find? a = some t →
      t.preferred? simulatedInstance = some p → Climbs s p path r → Climbs s a (a :: path) r

theorem place?_eq_some_iff : s.place? a = some P ↔
    ∃ t, s.stations.find? a = some t ∧ t.hop = some P.hop ∧ t.standing? = some P.toStanding := by
  rw [place?, Option.bind_eq_some_iff]
  simp only [Station.place?_eq_some_iff]

theorem InStep.joined_iff (h : s.InStep) : s.Joined a ↔ ∃ P, s.place? a = some P := by
  constructor
  · rintro ⟨t, ht, hjoined⟩
    rw [Station.isJoined_eq] at hjoined
    have hhop : t.hop.isSome = true := (h a t ht).trans hjoined
    obtain ⟨hop, hhop⟩ := Option.isSome_iff_exists.1 hhop
    obtain ⟨P, hP, -⟩ := (h a t ht).exists_place hhop
    exact ⟨P, by rw [place?, ht, Option.bind_some, hP]⟩
  · rintro ⟨P, hP⟩
    obtain ⟨t, ht, -, hstanding⟩ := place?_eq_some_iff.1 hP
    exact ⟨t, ht, by rw [Station.isJoined_eq, hstanding, Option.isSome_some]⟩

theorem InStep.not_joined (h : s.InStep) (ha : s.place? a = none) : ¬s.Joined a := by
  intro hjoined
  obtain ⟨P, hP⟩ := h.joined_iff.1 hjoined
  rw [ha] at hP
  cases hP

/-- A path to a root, seen from the places of the stations. -/
theorem climbs_root (h : s.place? a = some P) (hhop : P.hop = 0) (hpref : P.preferred = none) :
    s.Climbs a [a] a := by
  obtain ⟨t, ht, hthop, hstanding⟩ := place?_eq_some_iff.1 h
  refine .root ht ?_ ?_
  · rw [Station.isRoot, hthop, hhop]
    rfl
  · rw [Station.preferred?_eq, hstanding, Option.bind_some, hpref]

theorem Climbs.child (h : s.Climbs p path r) (ha : s.place? a = some P)
    (hpref : P.preferred = some p) : s.Climbs a (a :: path) r := by
  obtain ⟨t, ht, -, hstanding⟩ := place?_eq_some_iff.1 ha
  exact .step ht (by rw [Station.preferred?_eq, hstanding, Option.bind_some, hpref]) h

/-- As places are taken for good, so is the path to the root. -/
theorem Climbs.kept (h : s.Climbs a path r) (hstep : s.InStep)
    (hkept : ∀ b P, s.place? b = some P →
      ∃ Q, s'.place? b = some Q ∧ Q.hop = P.hop ∧ Q.preferred = P.preferred) :
    s'.Climbs a path r := by
  have hplace {b : Address} {t : Station} (ht : s.stations.find? b = some t)
      (hjoined : t.isJoined simulatedInstance = true) :
      ∃ Q, s'.place? b = some Q ∧ t.hop = some Q.hop ∧
        t.preferred? simulatedInstance = Q.preferred := by
    obtain ⟨P, hP⟩ := hstep.joined_iff.1 ⟨t, ht, hjoined⟩
    obtain ⟨u, hu, hhop, hstanding⟩ := place?_eq_some_iff.1 hP
    obtain rfl := Option.some.inj (ht.symm.trans hu)
    obtain ⟨Q, hQ, hQhop, hQpref⟩ := hkept b P hP
    refine ⟨Q, hQ, by rw [hhop, hQhop], ?_⟩
    rw [Station.preferred?_eq, hstanding, Option.bind_some, hQpref]
  induction h with
  | @root a t ht hroot hnone =>
    have hhop : t.hop = some 0 := of_decide_eq_true hroot
    have hjoined : t.isJoined simulatedInstance = true := by
      have hsome : t.hop.isSome = t.standing?.isSome := hstep a t ht
      rw [Station.isJoined_eq, ← hsome, hhop, Option.isSome_some]
    obtain ⟨Q, hQ, hQhop, hQpref⟩ := hplace ht hjoined
    exact climbs_root hQ (Option.some.inj (hQhop.symm.trans hhop)) (hQpref.symm.trans hnone)
  | @step a p r t path ht hpref _ ih =>
    have hjoined : t.isJoined simulatedInstance = true := by
      rw [Station.preferred?_eq] at hpref
      obtain ⟨st, hst, -⟩ := Option.bind_eq_some_iff.1 hpref
      rw [Station.isJoined_eq, hst, Option.isSome_some]
    obtain ⟨Q, hQ, -, hQpref⟩ := hplace ht hjoined
    exact ih.child hQ (hQpref.symm.trans hpref)

/-- What the places of the stations are after a run. -/
structure Wooded (xs : List Scene) (s : Simulation) : Prop where
  joined : ∀ a, Founded xs a → ∃ P, s.place? a = some P
  root : ∀ a P, s.place? a = some P → Founded xs a → P = ⟨⟨none, []⟩, 0⟩
  child : ∀ a P, s.place? a = some P → ¬Founded xs a →
    ∃ p Q, P.preferred = some p ∧ p ≠ a ∧ s.place? p = some Q ∧
      P.hop = min (Q.hop + 1) maxHop ∧ JoinedBefore xs p a
  closer : ∀ a P q, s.place? a = some P → q ∈ P.parents → P.preferred ≠ some q →
    ∃ Q, s.place? q = some Q ∧ Q.hop < P.hop
  path : ∀ a P, s.place? a = some P → ∃ path r, s.Climbs a path r ∧ Founded xs r ∧
    path.Nodup ∧ ∀ b ∈ path, ∃ Q, s.place? b = some Q

theorem wooded_new (seed : UInt64) : Wooded [] (.new seed) where
  joined _ h := by
    obtain ⟨x, hx, -⟩ := h
    cases hx
  root _ _ h := by cases h
  child _ _ h := by cases h
  closer _ _ _ h := by cases h
  path _ _ h := by cases h

theorem Founded.append {ys : List Scene} (h : Founded xs a) : Founded (xs ++ ys) a := by
  obtain ⟨x, hx, hfounded⟩ := h
  exact ⟨x, List.mem_append_left _ hx, hfounded⟩

theorem JoinedBefore.append {ys : List Scene} (h : JoinedBefore xs p a) :
    JoinedBefore (xs ++ ys) p a := by
  obtain ⟨x, hx, hbefore⟩ := h
  exact ⟨x, List.mem_append_left _ hx, hbefore⟩

/-- A station that has joined is not made a root any more. -/
theorem founded_append_iff (hstep : s.InStep) (h : s.place? a = some P) :
    Founded (xs ++ [⟨s, c, s'⟩]) a ↔ Founded xs a := by
  refine ⟨?_, .append⟩
  rintro ⟨x, hx, hmove, hbefore, hafter⟩
  rcases List.mem_append.1 hx with hx | hx
  · exact ⟨x, hx, hmove, hbefore, hafter⟩
  · obtain rfl := List.mem_singleton.1 hx
    exact absurd (hstep.joined_iff.2 ⟨P, h⟩) hbefore

/-- In a move that is not the forming of the instance no station is made a root. -/
theorem founded_append_iff_of_ne (hc : c ≠ .form a) :
    Founded (xs ++ [⟨s, c, s'⟩]) a ↔ Founded xs a := by
  refine ⟨?_, .append⟩
  rintro ⟨x, hx, hmove, hfounded⟩
  rcases List.mem_append.1 hx with hx | hx
  · exact ⟨x, hx, hmove, hfounded⟩
  · obtain rfl := List.mem_singleton.1 hx
    exact absurd hmove hc

/-- A place that is taken after a move was taken before, or it is that of a new root, or that of a
station that has joined through another one. -/
theorem Wooded.origin (hw : Wooded xs s) (hs : s.Sound) (hstep : s.InStep)
    (h : s.proceed c = .ok s') (hP : s'.place? a = some P) :
    (∃ P₀, s.place? a = some P₀ ∧ (Founded (xs ++ [⟨s, c, s'⟩]) a ↔ Founded xs a) ∧
      P.hop = P₀.hop ∧ P.preferred = P₀.preferred ∧
      ∀ q ∈ P.parents, q ∈ P₀.parents ∨ ∃ Q, s.place? q = some Q ∧ Q.hop < P.hop) ∨
    (Founded (xs ++ [⟨s, c, s'⟩]) a ∧ P = ⟨⟨none, []⟩, 0⟩) ∨
    ∃ p Q, ¬Founded (xs ++ [⟨s, c, s'⟩]) a ∧ s.place? a = none ∧ s.place? p = some Q ∧
      P = ⟨⟨some p, [p]⟩, min (Q.hop + 1) maxHop⟩ := by
  have ha := hs.shift hstep h a
  rw [hP] at ha
  obtain ⟨P₀, hP₀, hsame⟩ | ⟨hnone, rfl, rfl⟩ | ⟨p, Q, hnone, rfl, hQ, rfl⟩ := ha.origin
  · exact .inl ⟨P₀, hP₀, founded_append_iff hstep hP₀, hsame⟩
  · refine .inr (.inl ⟨⟨_, List.mem_append_right _ (List.mem_singleton_self _), rfl, ?_, ?_⟩, rfl⟩)
    · exact hstep.not_joined hnone
    · exact (hstep.proceed hs h).joined_iff.2 ⟨_, hP⟩
  · refine .inr (.inr ⟨p, Q, fun hfounded => ?_, hnone, hQ, rfl⟩)
    rw [founded_append_iff_of_ne (by simp)] at hfounded
    exact hstep.not_joined hnone (hstep.joined_iff.2 (hw.joined a hfounded))

/-- After a move a station that is no root still has a parent that joined before it. -/
theorem Wooded.child_of_proceed (hw : Wooded xs s) (hs : s.Sound) (hstep : s.InStep)
    (h : s.proceed c = .ok s') (hP : s'.place? a = some P)
    (hnot : ¬Founded (xs ++ [⟨s, c, s'⟩]) a) :
    ∃ p Q, P.preferred = some p ∧ p ≠ a ∧ s'.place? p = some Q ∧
      P.hop = min (Q.hop + 1) maxHop ∧ JoinedBefore (xs ++ [⟨s, c, s'⟩]) p a := by
  obtain ⟨P₀, hP₀, hiff, hhop, hpref, -⟩ | ⟨hfounded, -⟩ | ⟨p, Q, -, hnone, hQ, rfl⟩ :=
    hw.origin hs hstep h hP
  · obtain ⟨p, Q, hp, hne, hQ, hclimb, hbefore⟩ := hw.child a P₀ hP₀ (hnot ∘ hiff.2)
    obtain ⟨Q', hQ', hQhop, -⟩ := hs.place_kept hstep h hQ
    exact ⟨p, Q', hpref.trans hp, hne, hQ', by rw [hhop, hclimb, hQhop], hbefore.append⟩
  · exact absurd hfounded hnot
  · obtain ⟨Q', hQ', hQhop, -⟩ := hs.place_kept hstep h hQ
    refine ⟨p, Q', rfl, ?_, hQ', by rw [hQhop], ⟨s, c, s'⟩, by simp, ?_, hstep.not_joined hnone⟩
    · rintro rfl
      cases hnone.symm.trans hQ
    · exact hstep.joined_iff.2 ⟨Q, hQ⟩

/-- After a move there still is a path from each station that has joined to a root. -/
theorem Wooded.path_of_proceed (hw : Wooded xs s) (hs : s.Sound) (hstep : s.InStep)
    (h : s.proceed c = .ok s') (hP : s'.place? a = some P) :
    ∃ path r, s'.Climbs a path r ∧ Founded (xs ++ [⟨s, c, s'⟩]) r ∧ path.Nodup ∧
      ∀ b ∈ path, ∃ Q, s'.place? b = some Q := by
  have hplaces {path : List Address} (hall : ∀ b ∈ path, ∃ Q, s.place? b = some Q) :
      ∀ b ∈ path, ∃ Q, s'.place? b = some Q := by
    intro b hb
    obtain ⟨Q, hQ⟩ := hall b hb
    obtain ⟨Q', hQ', -⟩ := hs.place_kept hstep h hQ
    exact ⟨Q', hQ'⟩
  have hclimb {b r : Address} {path : List Address} (hclimbs : s.Climbs b path r) :
      s'.Climbs b path r := hclimbs.kept hstep fun b Q hQ => hs.place_kept hstep h hQ
  obtain ⟨P₀, hP₀, -⟩ | ⟨hfounded, rfl⟩ | ⟨p, Q, -, hnone, hQ, rfl⟩ := hw.origin hs hstep h hP
  · obtain ⟨path, r, hclimbs, hfounded, hnodup, hall⟩ := hw.path a P₀ hP₀
    exact ⟨path, r, hclimb hclimbs, hfounded.append, hnodup, hplaces hall⟩
  · refine ⟨[a], a, climbs_root hP rfl rfl, hfounded, List.nodup_singleton a, fun b hb => ?_⟩
    obtain rfl := List.mem_singleton.1 hb
    exact ⟨_, hP⟩
  · obtain ⟨path, r, hclimbs, hfounded, hnodup, hall⟩ := hw.path p Q hQ
    -- The station that joins is not on the way of its parent to the root.
    have hnew : a ∉ path := by
      intro ha
      obtain ⟨P₀, hP₀⟩ := hall a ha
      cases hnone.symm.trans hP₀
    refine ⟨a :: path, r, (hclimb hclimbs).child hP rfl, hfounded.append,
      List.nodup_cons.2 ⟨hnew, hnodup⟩, fun b hb => ?_⟩
    rcases List.mem_cons.1 hb with rfl | hb
    · exact ⟨_, hP⟩
    · exact hplaces hall b hb

theorem Wooded.proceed (hw : Wooded xs s) (hs : s.Sound) (hstep : s.InStep)
    (h : s.proceed c = .ok s') : Wooded (xs ++ [⟨s, c, s'⟩]) s' := by
  constructor
  case joined =>
    rintro a ⟨x, hx, hmove, hbefore, hafter⟩
    rcases List.mem_append.1 hx with hx | hx
    · obtain ⟨P, hP⟩ := hw.joined a ⟨x, hx, hmove, hbefore, hafter⟩
      obtain ⟨Q, hQ, -⟩ := hs.place_kept hstep h hP
      exact ⟨Q, hQ⟩
    · obtain rfl := List.mem_singleton.1 hx
      exact (hstep.proceed hs h).joined_iff.1 hafter
  case root =>
    intro a P hP hfounded
    obtain ⟨P₀, hP₀, hiff, hhop, hpref, hparents⟩ | ⟨-, rfl⟩ | ⟨p, Q, hnot, -⟩ :=
      hw.origin hs hstep h hP
    · -- A root takes no parents, as nothing is closer to a root than it is itself.
      obtain rfl := hw.root a P₀ hP₀ (hiff.1 hfounded)
      obtain ⟨⟨preferred, parents⟩, hop⟩ := P
      obtain rfl : hop = 0 := hhop
      obtain rfl : preferred = none := hpref
      obtain rfl : parents = [] := by
        refine List.eq_nil_iff_forall_not_mem.2 fun q hq => ?_
        rcases hparents q hq with hq | ⟨Q, -, hlt⟩
        · cases hq
        · exact Nat.not_lt_zero _ hlt
      rfl
    · rfl
    · exact absurd hfounded hnot
  case child => exact fun a P hP hnot => hw.child_of_proceed hs hstep h hP hnot
  case closer =>
    intro a P q hP hq hne
    obtain ⟨P₀, hP₀, -, hhop, hpref, hparents⟩ | ⟨-, rfl⟩ | ⟨p, Q, -, -, -, rfl⟩ :=
      hw.origin hs hstep h hP
    · obtain ⟨Q, hQ, hlt⟩ : ∃ Q, s.place? q = some Q ∧ Q.hop < P.hop := by
        rcases hparents q hq with hq | hcloser
        · rw [hhop]
          exact hw.closer a P₀ q hP₀ hq (hpref ▸ hne)
        · exact hcloser
      obtain ⟨Q', hQ', hQhop, -⟩ := hs.place_kept hstep h hQ
      exact ⟨Q', hQ', by rwa [hQhop]⟩
    · cases hq
    · obtain rfl := List.mem_singleton.1 hq
      exact absurd rfl hne
  case path => exact fun a P hP => hw.path_of_proceed hs hstep h hP

theorem Run.wooded {seed : UInt64} (hrun : Run (.new seed) xs s) : Wooded xs s := by
  induction hrun with
  | start => exact wooded_new seed
  | move hrun hc ih => exact ih.proceed hrun.sound hrun.inStep hc

/-- A station that has joined keeps its distance from a root and its preferred parent. -/
theorem Run.place_kept {seed : UInt64} {ys : List Scene} (hrun : Run (.new seed) xs s)
    (hrun' : Run s ys s') (h : s.place? a = some P) :
    ∃ Q, s'.place? a = some Q ∧ Q.hop = P.hop ∧ Q.preferred = P.preferred := by
  induction hrun' with
  | start => exact ⟨P, h, rfl, rfl⟩
  | @move ys s' s'' c hrun' hc ih =>
    obtain ⟨Q, hQ, hhop, hpref⟩ := ih
    have hrun'' := hrun.append hrun'
    obtain ⟨Q', hQ', hhop', hpref'⟩ := hrun''.sound.place_kept hrun''.inStep hc hQ
    exact ⟨Q', hQ', hhop'.trans hhop, hpref'.trans hpref⟩

/-- A station that has joined, and its place. -/
theorem Run.place_of_joined {seed : UInt64} (hrun : Run (.new seed) xs s)
    (ht : s.stations.find? a = some t) (hjoined : t.isJoined simulatedInstance = true) :
    ∃ P, s.place? a = some P ∧ t.hop = some P.hop ∧ t.standing? = some P.toStanding ∧
      t.preferred? simulatedInstance = P.preferred := by
  obtain ⟨P, hP⟩ := hrun.inStep.joined_iff.1 ⟨t, ht, hjoined⟩
  obtain ⟨u, hu, hhop, hstanding⟩ := place?_eq_some_iff.1 hP
  obtain rfl := Option.some.inj (ht.symm.trans hu)
  exact ⟨P, hP, hhop, hstanding, by rw [Station.preferred?_eq, hstanding, Option.bind_some]⟩

/-- A taken place, and the station that has taken it. -/
theorem exists_station (h : s.place? a = some P) :
    ∃ t, s.stations.find? a = some t ∧ t.isJoined simulatedInstance = true ∧ t.hop = some P.hop ∧
      t.preferred? simulatedInstance = P.preferred := by
  obtain ⟨t, ht, hhop, hstanding⟩ := place?_eq_some_iff.1 h
  refine ⟨t, ht, ?_, hhop, ?_⟩
  · rw [Station.isJoined_eq, hstanding, Option.isSome_some]
  · rw [Station.preferred?_eq, hstanding, Option.bind_some]

/-- In every run of a simulation, whichever stations were made roots and whatever was lost, delayed
or switched off, preferred parents make a forest.  A station that was made a root is at distance 0
and prefers no parent.  Any other one that has joined prefers another station that joined strictly
earlier and is one hop closer to a root, as far as distances are told apart.  To follow preferred
parents from any station that has joined leads to one that was made a root, and visits none twice.
All other candidate parents of a station are closer to a root than it is.  And a station that has
joined never leaves, and keeps its distance and its preferred parent. -/
theorem preferred_parents_form_forest {seed : UInt64} (hrun : Run (.new seed) xs s) :
    (∀ a t d, s.stations.find? a = some t → t.node.dodags.find? simulatedInstance = some d →
      (Founded xs a → t.hop = some 0 ∧ d.preferred = none) ∧
      (¬Founded xs a → ∃ p u hop, d.preferred = some p ∧ p ≠ a ∧ s.stations.find? p = some u ∧
        u.isJoined simulatedInstance = true ∧ JoinedBefore xs p a ∧
        u.hop = some hop ∧ t.hop = some (min (hop + 1) maxHop)) ∧
      (∃ path r, s.Climbs a path r ∧ Founded xs r ∧ path.Nodup) ∧
      ∀ q, d.parents.contains q = true → d.preferred ≠ some q →
        ∃ u hopq hop, s.stations.find? q = some u ∧ u.hop = some hopq ∧ t.hop = some hop ∧
          hopq < hop) ∧
    ∀ x ∈ xs, ∀ a t, x.before.stations.find? a = some t → t.isJoined simulatedInstance = true →
      ∃ t', s.stations.find? a = some t' ∧ t'.isJoined simulatedInstance = true ∧
        t'.hop = t.hop ∧ t'.preferred? simulatedInstance = t.preferred? simulatedInstance := by
  have hw := hrun.wooded
  refine ⟨fun a t d ht hd => ?_, fun x hx a t ht hjoined => ?_⟩
  · obtain ⟨P, hP, hhop, hstanding, -⟩ := hrun.place_of_joined ht (Table.contains_of_find? hd)
    obtain ⟨d', hd', hpref, hparents⟩ := Node.standing?_eq_some_iff.1 hstanding
    obtain rfl := Option.some.inj (hd.symm.trans hd')
    refine ⟨fun hfounded => ?_, fun hnot => ?_, ?_, fun q hq hne => ?_⟩
    · obtain rfl := hw.root a P hP hfounded
      exact ⟨hhop, hpref⟩
    · obtain ⟨p, Q, hp, hne, hQ, hclimb, hbefore⟩ := hw.child a P hP hnot
      obtain ⟨u, hu, hujoined, huhop, -⟩ := exists_station hQ
      exact ⟨p, u, Q.hop, hpref.trans hp, hne, hu, hujoined, hbefore, huhop, by rw [hhop, hclimb]⟩
    · obtain ⟨path, r, hclimbs, hfounded, hnodup, -⟩ := hw.path a P hP
      exact ⟨path, r, hclimbs, hfounded, hnodup⟩
    · rw [← Table.mem_keys_iff, hparents] at hq
      obtain ⟨Q, hQ, hlt⟩ := hw.closer a P q hP hq (hpref ▸ hne)
      obtain ⟨u, hu, -, huhop, -⟩ := exists_station hQ
      exact ⟨u, Q.hop, P.hop, hu, huhop, hhop, hlt⟩
  · obtain ⟨ys, zs, -, hbefore, hmove, hafter⟩ := hrun.cut hx
    obtain ⟨P, hP, hhop, -, hpref⟩ := hbefore.place_of_joined ht hjoined
    obtain ⟨Q, hQ, hQhop, hQpref⟩ := hbefore.place_kept ((Run.start.move hmove).append hafter) hP
    obtain ⟨t', ht', hjoined', hhop', hpref'⟩ := exists_station hQ
    exact ⟨t', ht', hjoined', by rw [hhop', hQhop, hhop], by rw [hpref', hQpref, hpref]⟩

/-- Of two stations the second one joins through the root, 2 ms after the root has advertised the
instance. -/
theorem preferred_parents_form_forest_steady :
    ∃ s₀ xs ys s t d, (Experiment.steady 2).setUp = .ok s₀ ∧ Run (.new 42) (xs ++ ys) s ∧
      s₀.record [.event, .event] = .ok (ys, s) ∧
      s.stations.find? (Experiment.address 1) = some t ∧
      t.node.dodags.find? simulatedInstance = some d ∧
      d.preferred = some (Experiment.address 0) ∧ t.hop = some 1 ∧
      ∃ path r, s.Climbs (Experiment.address 1) path r ∧ Founded (xs ++ ys) r ∧ path.Nodup := by
  obtain ⟨s₀, ys, s, t, d, hs₀, hrecord, ht, hd, hpref, hhop⟩ :
      ∃ s₀ ys s t d, (Experiment.steady 2).setUp = .ok s₀ ∧
        s₀.record [.event, .event] = .ok (ys, s) ∧
        s.stations.find? (Experiment.address 1) = some t ∧
        t.node.dodags.find? simulatedInstance = some d ∧
        d.preferred = some (Experiment.address 0) ∧ t.hop = some 1 :=
    ⟨_, _, _, _, _, rfl, rfl, rfl, rfl, rfl, rfl⟩
  obtain ⟨xs, hxs⟩ := run_of_setUp hs₀
  have hrun := hxs.append (run_of_record hrecord)
  obtain ⟨-, -, hpath, -⟩ := (preferred_parents_form_forest hrun).1 _ t d ht hd
  exact ⟨s₀, xs, ys, s, t, d, hs₀, hrun, hrecord, ht, hd, hpref, hhop, hpath⟩

end Simulation

end TrickleNet
