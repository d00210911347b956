import Mathlib
import TrickleNet.Proofs.Conservation
import TrickleNet.Proofs.Forest
import TrickleNet.Proofs.Refusals
/-!
# The gradient of a chain

When a network is laid out as a chain and its first station is the only root, the stations join one
after the other.  At every moment those that have joined are the first ones of the chain, station
`i` is `i` hops from the root, and it has the station before it for its only parent
(`chain_builds_hop_gradient`).

Frames go between stations that are next to each other, whatever becomes of the links between them
(`Simulation.Lined`), so a station hears its predecessor and its successor only.  It cannot join
through the successor, because that one has not joined yet and its advertisements say nothing.  It
cannot take the successor for a further candidate either, because that one is not closer to the
root, not even where the distance saturates.  `Simulation.Graded` is the invariant that carries
this.
-/

namespace TrickleNet

open Experiment (address)

/-- The addresses of two stations of which one comes right after the other. -/
def Linked (a b : Address) : Prop :=
  ∃ k, a = address k ∧ b = address (k + 1) ∨ a = address (k + 1) ∧ b = address k

theorem Linked.symm {a b : Address} (h : Linked a b) : Linked b a := by
  obtain ⟨k, ⟨ha, hb⟩ | ⟨ha, hb⟩⟩ := h
  · exact ⟨k, .inr ⟨hb, ha⟩⟩
  · exact ⟨k, .inl ⟨hb, ha⟩⟩

/-- Station numbers that fit a word, as their successors do, are linked if one is the successor. -/
theorem eq_of_linked {i j : Nat} (h : Linked (address i) (address j)) (hi : i + 1 < wordLimit64)
    (hj : j + 1 < wordLimit64) : j = i + 1 ∨ i = j + 1 := by
  have hindex {i k : Nat} (h : address i = address k) : i % wordLimit64 = k % wordLimit64 := by
    have hnat := congrArg (fun a => a.index.toNat) h
    simpa only [address, Address.index_linkLocal, UInt64.toNat_ofNat'] using hnat
  obtain ⟨k, ⟨hik, hjk⟩ | ⟨hik, hjk⟩⟩ := h
  · have := hindex hik
    have := hindex hjk
    simp only [wordLimit64] at *
    omega
  · have := hindex hik
    have := hindex hjk
    simp only [wordLimit64] at *
    omega

/-- Station `i` of a chain links to the stations before and after it. -/
theorem linked_of_chain {n : Nat} {a b : Address}
    (h : ((RadioMap.chain ((List.range n).map address)).link? a b).isSome = true) : Linked a b := by
  obtain ⟨x, y, ⟨pre, post, hnodes⟩, hedge⟩ := RadioMap.link?_chain.1 h
  have hget (k : Nat) (hk : k < (pre ++ [x, y] ++ post).length) :
      (pre ++ [x, y] ++ post)[k] = address k := by
    simp only [hnodes, List.getElem_map, List.getElem_range]
  have hx : x = address pre.length := by
    rw [← hget pre.length (by simp)]
    simp
  have hy : y = address (pre.length + 1) := by
    rw [← hget (pre.length + 1) (by simp)]
    simp
  have hxy : Linked x y := ⟨pre.length, .inl ⟨hx, hy⟩⟩
  rcases Edge.of_eq_of_iff.1 hedge with ⟨rfl, rfl⟩ | ⟨rfl, rfl⟩
  · exact hxy
  · exact hxy.symm

/-- The moves of a network that is laid out as a chain of `n` stations, the first of which is the
only one that is ever made a root.  Links may be taken down, brought up and changed at will, and
stations may lose and regain the use of their addresses. -/
def Move.Chained (n : Nat) : Move → Prop
  | .edit radio _ => ∀ a b, (radio.link? a b).isSome = true →
    ((RadioMap.chain ((List.range n).map address)).link? a b).isSome = true
  | .form a => a = address 0
  | .addStation _ | .plan .. | .act _ | .sampleEvery _ | .event | .close _ => True

namespace Simulation

variable {s s' : Simulation} {xs : List Scene} {c : Move} {t : Station} {a b : Address}
  {P : Place} {m n : Nat}

/-! ## Frames stay in the chain -/

/-- Links and frames join stations that come one after the other. -/
structure Lined (s : Simulation) : Prop where
  radio : ∀ a b, (s.radio.link? a b).isSome = true → Linked a b
  flying : ∀ e ∈ s.agenda.entries, ∀ sender receiver msg,
    e.2 = .deliver sender receiver msg → Linked sender receiver

/-- The same pairs of nodes have links. -/
def SameLinks (s s' : Simulation) : Prop :=
  ∀ a b, (s'.radio.link? a b).isSome = (s.radio.link? a b).isSome

theorem sameLinks_of_eq (h : s'.radio = s.radio) : s.SameLinks s' := by
  intro a b
  rw [h]

theorem sameLinks_act (s : Simulation) (action : Action) : s.SameLinks (s.act action) := by
  have hadjust (a b : Address) (f : Link → Link) : s.SameLinks (s.adjustLink a b f) := by
    intro x y
    rw [adjustLink, RadioMap.link?_adjustLink]
    split
    · exact Option.isSome_map
    · rfl
  cases action with
  | disableLink a b => exact hadjust a b _
  | enableLink a b => exact hadjust a b _
  | setLoss a b => exact hadjust a b _
  | setReady | snapshot => exact sameLinks_of_eq rfl

theorem sameLinks_happen {h : Happening} (hh : s.happen h = .ok s') : s.SameLinks s' := by
  cases h with
  | deliver sender receiver msg =>
    simp only [happen, deliver] at hh
    split at hh
    · cases hh
      exact sameLinks_of_eq rfl
    · obtain ⟨⟨reported, t'⟩, -, hh⟩ := Checked.bind_eq_ok_iff.1 hh
      exact sameLinks_of_eq (aired_settle hh).radio
  | wake a deadline =>
    simp only [happen, wake] at hh
    split at hh
    · cases hh
      exact sameLinks_of_eq rfl
    split at hh
    · obtain ⟨t', -, hh⟩ := Checked.bind_eq_ok_iff.1 hh
      exact sameLinks_of_eq (aired_settle hh).radio
    · cases hh
      exact sameLinks_of_eq rfl
  | act action =>
    cases hh
    exact s.sameLinks_act action

/-- Nothing but a new radio map brings new links. -/
theorem sameLinks_proceed (h : s.proceed c = .ok s') (hc : ∀ radio params, c ≠ .edit radio params) :
    s.SameLinks s' := by
  cases c with
  | addStation seed =>
    obtain ⟨t, -, h⟩ := Checked.bind_eq_ok_iff.1 h
    exact sameLinks_of_eq (aired_settle h).radio
  | form a =>
    simp only [proceed, form] at h
    split at h
    · cases h
      exact sameLinks_of_eq rfl
    · obtain ⟨out, -, h⟩ := Checked.bind_eq_ok_iff.1 h
      exact sameLinks_of_eq (aired_settle h).radio
  | plan time action =>
    obtain ⟨agenda, -, h⟩ := Checked.bind_eq_ok_iff.1 h
    cases h
    exact sameLinks_of_eq rfl
  | act action =>
    cases h
    exact s.sameLinks_act action
  | edit radio params => exact absurd rfl (hc radio params)
  | sampleEvery every =>
    cases h
    exact sameLinks_of_eq rfl
  | event =>
    cases hnext : s.agenda.next? with
    | none =>
      rw [proceed, hnext] at h
      cases h
      exact sameLinks_of_eq rfl
    | some e =>
      obtain ⟨slot, happening, rest⟩ := e
      rw [proceed_event hnext] at h
      obtain ⟨k, hk, h⟩ := Checked.bind_eq_ok_iff.1 h
      obtain ⟨sampling, more, heq, -⟩ := k.sample_eq
      cases h
      have hlinks := sameLinks_happen hk
      rw [heq]
      exact hlinks
  | close limit =>
    cases h
    split <;> exact sameLinks_of_eq rfl

theorem lined_new (seed : UInt64) : (Simulation.new seed).Lined where
  radio _ _ h := by cases h
  flying _ h := by cases h

theorem Lined.proceed (hl : s.Lined) (hs : s.Sound) (hmeant : s.Meant) (hc : c.Chained n)
    (h : s.proceed c = .ok s') : s'.Lined where
  radio := by
    intro a b hlink
    by_cases hedit : ∃ radio params, c = .edit radio params
    · obtain ⟨radio, params, rfl⟩ := hedit
      cases h
      exact linked_of_chain (hc a b hlink)
    · push Not at hedit
      rw [sameLinks_proceed h hedit] at hlink
      exact hl.radio a b hlink
  flying := by
    intro e he sender receiver msg heq
    rcases (booked_proceed hs hmeant h).aimed e he with he | haimed
    · exact hl.flying e (mem_of_opened he) sender receiver msg heq
    · obtain ⟨hup, -⟩ := haimed sender receiver msg heq
      rw [radio_opened] at hup
      obtain ⟨l, hlink, -⟩ := RadioMap.connected_iff.1 hup
      exact hl.radio sender receiver (by rw [hlink]; rfl)

/-- A message is handed on by one of the two neighbours in the chain. -/
theorem Lined.linked (hl : s.Lined) (h : s.Hands c a b) : Linked a b := by
  obtain ⟨-, slot, msg, rest, hnext⟩ := h
  refine hl.flying (slot, _) ?_ a b msg rfl
  rw [(Agenda.next?_eq_some hnext).1]
  exact List.mem_cons_self

/-! ## Places in the chain -/

/-- A candidate parent that a station did not have before a move is the sender of a message that it
is handed. -/
theorem Sound.new_parent_of_proceed (hs : s.Sound) (hstep : s.InStep) (h : s.proceed c = .ok s')
    (hP : s'.place? a = some P) {q : Address} (hq : q ∈ P.parents) :
    (∃ P₀, s.place? a = some P₀ ∧ q ∈ P₀.parents) ∨ s.Hands c q a := by
  obtain ⟨u, hu, hhop, hstanding⟩ := place?_eq_some_iff.1 hP
  rcases station_of_proceed h hu with ⟨v, hv, hsame⟩ | ⟨t, t', hcalled, rfl, rfl⟩
  · refine .inl ⟨P, place?_eq_some_iff.2 ⟨v, hv, ?_⟩, hq⟩
    rcases hsame with rfl | ⟨ready, rfl⟩
    · exact ⟨hhop, hstanding⟩
    · exact ⟨hhop, hstanding⟩
  · rw [(hs.after_call hcalled).1]
    refine (hs.new_parent hcalled hstanding hq).imp_left ?_
    rintro ⟨st, hst, hq⟩
    rcases hcalled.before hs with ⟨seed, -, rfl⟩ | ⟨v, hv, hsame⟩
    · cases hst
    · have hvst : v.standing? = some st := by
        rcases hsame with rfl | rfl
        · exact hst
        · exact hst
      obtain ⟨hop, hhop⟩ : ∃ hop, v.hop = some hop := by
        have hjoined : v.hop.isSome = v.standing?.isSome := hstep _ v hv
        rw [hvst] at hjoined
        exact Option.isSome_iff_exists.1 hjoined
      exact ⟨{ st with hop }, place?_eq_some_iff.2 ⟨v, hv, hhop, hvst⟩, hq⟩

/-- The place of station `i` in a chain. -/
structure InChain (i : Nat) (P : Place) : Prop where
  hop : P.hop = min i maxHop
  root : i = 0 → P.preferred = none
  child : ∀ j, i = j + 1 → P.preferred = some (address j)
  parents : ∀ q ∈ P.parents, ∃ j, i = j + 1 ∧ q = address j

theorem inChain_root : InChain 0 ⟨⟨none, []⟩, 0⟩ where
  hop := rfl
  root _ := rfl
  child j hj := by cases hj
  parents q hq := by cases hq

/-- A station that joins through its predecessor takes the place after it. -/
theorem InChain.next {i : Nat} (h : InChain i P) :
    InChain (i + 1) ⟨⟨some (address i), [address i]⟩, min (P.hop + 1) maxHop⟩ where
  hop := by
    dsimp only
    rw [h.hop]
    omega
  root h := by cases h
  child j hj := by rw [Nat.succ.inj hj]
  parents q hq := ⟨i, rfl, List.mem_singleton.1 hq⟩

/-- Of two neighbours in the chain the one that is closer to the root comes first. -/
theorem InChain.eq_succ {i j : Nat} {Q : Place} (h : InChain i P) (h' : InChain j Q)
    (hlt : Q.hop < P.hop) (hlink : Linked (address j) (address i)) (hi : i + 1 < wordLimit64)
    (hj : j + 1 < wordLimit64) : i = j + 1 := by
  rw [h.hop, h'.hop] at hlt
  rcases eq_of_linked hlink hj hi with heq | heq
  · exact heq
  · omega

/-- The first `m` stations have joined, and each has its place in the chain. -/
structure Graded (m : Nat) (s : Simulation) : Prop where
  le : m ≤ s.stations.size
  joined : ∀ i < m, ∃ P, s.place? (address i) = some P
  place : ∀ a P, s.place? a = some P → ∃ i < m, a = address i ∧ InChain i P

theorem graded_new (seed : UInt64) : Graded 0 (.new seed) where
  le := Nat.le_refl 0
  joined _ h := absurd h (Nat.not_lt_zero _)
  place _ _ h := by cases h

theorem Sound.size_lt (hs : s.Sound) : s.stations.size < wordLimit64 :=
  Nat.lt_of_le_of_lt hs.size_le hs.number_lt

/-- A station that has a place has one of the first addresses. -/
theorem Sound.index_of_place (hs : s.Sound) (hP : s.place? a = some P) :
    ∃ i < s.stations.size, a = Experiment.address i := by
  obtain ⟨t, ht, -⟩ := place?_eq_some_iff.1 hP
  exact hs.indexed a (Table.contains_of_find? ht)

/-- A place after a move is one of the places in the chain, of a station that had joined or of the
next one. -/
theorem Graded.after (hg : Graded m s) (hl : s.Lined) (hs : s.Sound) (hstep : s.InStep)
    (hc : c.Chained n) (h : s.proceed c = .ok s') (hP : s'.place? a = some P) :
    ∃ i ≤ m, a = address i ∧ InChain i P := by
  have hsize := hs.size_lt
  have hle := hg.le
  have hnew (q : Address) (hq : q ∈ P.parents) (P₀ : Place) (hP₀ : s.place? a = some P₀)
      (hnot : q ∉ P₀.parents) : Linked q a := by
    rcases hs.new_parent_of_proceed hstep h hP hq with ⟨P₁, hP₁, hq⟩ | hhands
    · cases hP₀.symm.trans hP₁
      exact absurd hq hnot
    · exact hl.linked hhands
  have hshift := hs.shift hstep h a
  rw [hP] at hshift
  rcases hshift.origin with ⟨P₀, hP₀, hhop, hpref, hparents⟩ | ⟨-, rfl, rfl⟩ |
    ⟨p, Q, hnone, -, hQ, rfl⟩
  · -- The station had joined.  A new candidate is closer to the root, so it is not the successor.
    obtain ⟨i, hi, rfl, hchain⟩ := hg.place a P₀ hP₀
    refine ⟨i, hi.le, rfl, hhop.trans hchain.hop, fun h => hpref.trans (hchain.root h),
      fun j hj => hpref.trans (hchain.child j hj), fun q hq => ?_⟩
    by_cases hold : q ∈ P₀.parents
    · exact hchain.parents q hold
    obtain ⟨Q, hQ, hlt⟩ := (hparents q hq).resolve_left hold
    obtain ⟨j, hj, rfl, hQchain⟩ := hg.place q Q hQ
    rw [hhop] at hlt
    exact ⟨j, hchain.eq_succ hQchain hlt (hnew _ hq P₀ hP₀ hold) (by omega) (by omega), rfl⟩
  · obtain rfl : a = address 0 := hc
    exact ⟨0, Nat.zero_le m, rfl, inChain_root⟩
  · -- The station joins.  It hears its successor no sooner than that has joined, through the
    -- station.
    obtain ⟨j, hj, rfl, hQchain⟩ := hg.place p Q hQ
    obtain ⟨i, hi, rfl⟩ := (hs.proceed h).index_of_place hP
    have hi' := (hs.proceed h).size_lt
    have hnotyet : m ≤ i := by
      by_contra hlt
      obtain ⟨P₀, hP₀⟩ := hg.joined i (Nat.lt_of_not_le hlt)
      rw [hnone] at hP₀
      cases hP₀
    have hlink : Linked (address j) (address i) := by
      rcases hs.new_parent_of_proceed hstep h hP (List.mem_singleton_self _) with
        ⟨P₀, hP₀, -⟩ | hhands
      · rw [hnone] at hP₀
        cases hP₀
      · exact hl.linked hhands
    obtain rfl : i = j + 1 := by
      rcases eq_of_linked hlink (by omega) (by omega) with heq | heq
      · exact heq
      · omega
    exact ⟨j + 1, hj, rfl, hQchain.next⟩

/-- No station is ever removed. -/
theorem size_le_of_proceed (h : s.proceed c = .ok s') : s.stations.size ≤ s'.stations.size := by
  rw [← Table.length_keys, ← Table.length_keys]
  refine (List.subperm_of_subset s.stations.nodup_keys fun a ha => ?_).length_le
  rw [Table.mem_keys_iff] at ha ⊢
  exact contains_of_proceed h ha

theorem Graded.proceed (hg : Graded m s) (hl : s.Lined) (hs : s.Sound) (hstep : s.InStep)
    (hc : c.Chained n) (h : s.proceed c = .ok s') : ∃ m', Graded m' s' := by
  have hkept (i : Nat) (hi : i < m) : ∃ P, s'.place? (address i) = some P := by
    obtain ⟨P, hP⟩ := hg.joined i hi
    obtain ⟨Q, hQ, -⟩ := hs.place_kept hstep h hP
    exact ⟨Q, hQ⟩
  have hs' := hs.proceed h
  have hle := hg.le
  have hsize := hs.size_lt
  cases hm : s'.place? (address m) with
  | none =>
    refine ⟨m, hle.trans (size_le_of_proceed h), hkept, fun a P hP => ?_⟩
    obtain ⟨i, hi, rfl, hchain⟩ := hg.after hl hs hstep hc h hP
    have hne : i ≠ m := by
      rintro rfl
      rw [hm] at hP
      cases hP
    exact ⟨i, by omega, rfl, hchain⟩
  | some Q =>
    -- The station before this one was the last to join.
    obtain ⟨i, hi, heq⟩ := hs'.index_of_place hm
    have hi' := hs'.size_lt
    obtain rfl : m = i := Address.linkLocal_inj (by omega) (by omega) heq
    refine ⟨m + 1, hi, fun i him => ?_, fun a P hP => ?_⟩
    · rcases Nat.lt_succ_iff_lt_or_eq.1 him with him | rfl
      · exact hkept i him
      · exact ⟨Q, hm⟩
    · obtain ⟨i, hi, hchain⟩ := hg.after hl hs hstep hc h hP
      exact ⟨i, Nat.lt_succ_of_le hi, hchain⟩

theorem Run.graded {seed : UInt64} (hrun : Run (.new seed) xs s)
    (hxs : ∀ x ∈ xs, x.move.Chained n) : s.Lined ∧ ∃ m, Graded m s := by
  induction hrun with
  | start => exact ⟨lined_new seed, 0, graded_new seed⟩
  | @move xs s s' c hrun hc ih =>
    obtain ⟨hl, m, hg⟩ := ih fun x hx => hxs x (List.mem_append_left _ hx)
    have hchained : c.Chained n :=
      hxs ⟨s, c, s'⟩ (List.mem_append_right _ (List.mem_singleton_self _))
    exact ⟨hl.proceed hrun.sound hrun.balanced.meant hchained hc,
      hg.proceed hl hrun.sound hrun.inStep hchained hc⟩

/-! ## The gradient -/

/-- The set-up of a chain goes by such moves, whatever else the experiment says. -/
theorem runBy_setUp_chain {e : Experiment} (he : e.layout = .chain) (hs : e.setUp = .ok s) :
    RunBy (Move.Chained e.size) (.new e.seed) s := by
  obtain ⟨xs, hrun, hxs⟩ := runBy_setUp hs
  refine ⟨xs, hrun, fun x hx => ?_⟩
  have hmove := hxs x hx
  generalize x.move = c at hmove ⊢
  cases hmove with
  | edit =>
    intro a b h
    rw [Experiment.radio, RadioMap.link?_mapLinks, Option.isSome_map, he] at h
    exact h
  | form => rfl
  | sampleEvery | addStation | setReady | plan => trivial

/-- At every moment of a run over a chain whose first station is the only one that is made a root,
the stations that have joined are the first ones: some number `m` of them, which may be none or all.
Station `i` of these is `i` hops from the root, or as many as can be told apart.  The root has no
parent; each of the others prefers the station before it and knows no other candidate.

The moves of the run are those of `Move.Chained`: it is free to change the links of the chain in any
way and at any time, to take them down and bring them up, and to make the addresses of stations
unusable and usable again.  An experiment over a chain is set up by such moves, whatever its size,
its parameters, its seed, its links and its schedule. -/
theorem chain_builds_hop_gradient :
    (∀ (n : Nat) (seed : UInt64) (xs : List Scene) (s : Simulation), Run (.new seed) xs s →
      (∀ x ∈ xs, x.move.Chained n) →
      ∃ m ≤ s.stations.size, (∀ a, s.Joined a ↔ ∃ i < m, a = address i) ∧
        ∀ i < m, ∃ t d, s.stations.find? (address i) = some t ∧
          t.hop = some (min i 255) ∧ t.node.dodags.find? simulatedInstance = some d ∧
          (i = 0 → d.preferred = none ∧ d.parents.keys = []) ∧
          ∀ j, i = j + 1 → d.preferred = some (address j) ∧ d.parents.keys = [address j]) ∧
    ∀ (e : Experiment) (s : Simulation), e.layout = .chain → e.setUp = .ok s →
      RunBy (Move.Chained e.size) (.new e.seed) s := by
  refine ⟨fun n seed xs s hrun hxs => ?_, fun e s he hs => runBy_setUp_chain he hs⟩
  obtain ⟨-, m, hg⟩ := hrun.graded hxs
  have hstep := hrun.inStep
  refine ⟨m, hg.le, fun a => ?_, fun i hi => ?_⟩
  · rw [hstep.joined_iff]
    constructor
    · rintro ⟨P, hP⟩
      obtain ⟨i, hi, ha, -⟩ := hg.place a P hP
      exact ⟨i, hi, ha⟩
    · rintro ⟨i, hi, rfl⟩
      exact hg.joined i hi
  · obtain ⟨P, hP⟩ := hg.joined i hi
    obtain ⟨k, hk, heq, hchain⟩ := hg.place _ P hP
    have hsize := hrun.sound.size_lt
    have hle := hg.le
    obtain rfl : i = k := Address.linkLocal_inj (by omega) (by omega) heq
    obtain ⟨t, ht, hhop, hstanding⟩ := place?_eq_some_iff.1 hP
    obtain ⟨d, hd, hpref, hparents⟩ := Node.standing?_eq_some_iff.1 hstanding
    refine ⟨t, d, ht, by rw [hhop, hchain.hop], hd, fun hroot => ?_, fun j hj => ?_⟩
    · refine ⟨hpref.trans (hchain.root hroot), ?_⟩
      rw [hparents]
      refine List.eq_nil_iff_forall_not_mem.2 fun q hq => ?_
      obtain ⟨j, hj, -⟩ := hchain.parents q hq
      omega
    · have hpref' := hpref.trans (hchain.child j hj)
      have hregistered : address j ∈ d.parents.keys :=
        Table.mem_keys_iff.2 ((hrun.sound.reachable _ t ht).registered hd hpref')
      have honly (q : Address) (hq : q ∈ d.parents.keys) : q = address j := by
        rw [hparents] at hq
        obtain ⟨k, hk, rfl⟩ := hchain.parents q hq
        rw [Nat.succ.inj (hj.symm.trans hk)]
      refine ⟨hpref', ?_⟩
      by_contra hne
      rcases (d.parents.nodup_keys.ne_singleton_iff (address j)).1 hne with hnil | ⟨q, hq, hother⟩
      · rw [hnil] at hregistered
        cases hregistered
      · exact hother (honly q hq)

/-- Three stations in a chain, of which the first two lose their link after one second. -/
def parted : Experiment :=
  ({ Experiment.steady 3 with layout := .chain } : Experiment).disableLinkAt ⟨1000, by decide⟩ 0 1

/-- The second station has joined before the link goes down, and the last one joins through it
afterwards. -/
theorem chain_builds_hop_gradient_parted :
    ∃ s₀ s xs, parted.setUp = .ok s₀ ∧ Run (.new 42) xs s ∧ (∀ x ∈ xs, x.move.Chained 3) ∧
      s.radio.connected (address 0) (address 1) = false ∧ s.Joined (address 2) ∧
      ∃ t d, s.stations.find? (address 2) = some t ∧ t.hop = some 2 ∧
        t.node.dodags.find? simulatedInstance = some d ∧ d.preferred = some (address 1) ∧
        d.parents.keys = [address 1] := by
  obtain ⟨s₀, ys, s, hs₀, hrecord, hsize, hdown, hjoined⟩ :
      ∃ s₀ ys s, parted.setUp = .ok s₀ ∧ s₀.record (List.replicate 11 .event) = .ok (ys, s) ∧
        s.stations.size = 3 ∧ s.radio.connected (address 0) (address 1) = false ∧
        s.Joined (address 2) :=
    ⟨_, _, _, rfl, rfl, rfl, rfl, _, rfl, rfl⟩
  have hevents : RunBy (Move.Chained 3) s₀ s := by
    refine ⟨ys, run_of_record hrecord, fun y hy => ?_⟩
    have hmove := List.mem_map_of_mem (f := Scene.move) hy
    rw [map_move_of_record hrecord] at hmove
    rw [List.eq_of_mem_replicate hmove]
    trivial
  obtain ⟨xs, hrun, hxs⟩ := (chain_builds_hop_gradient.2 parted s₀ rfl hs₀).trans hevents
  obtain ⟨m, hle, hfirst, hplace⟩ := chain_builds_hop_gradient.1 3 42 xs s hrun hxs
  obtain ⟨i, hi, heq⟩ := (hfirst (address 2)).1 hjoined
  have hi' : i < wordLimit64 := by
    rw [wordLimit64]
    omega
  obtain rfl : 2 = i := Address.linkLocal_inj (by decide) hi' heq
  obtain ⟨t, d, ht, hhop, hd, -, hchild⟩ := hplace 2 hi
  obtain ⟨hpref, hparents⟩ := hchild 1 rfl
  exact ⟨s₀, s, xs, hs₀, hrun, hxs, hdown, hjoined, t, d, ht, hhop, hd, hpref, hparents⟩

end Simulation

end TrickleNet
