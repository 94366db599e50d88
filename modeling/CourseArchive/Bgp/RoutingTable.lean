import CourseArchive.Bgp.RoundTrip
import CourseArchive.Lib.Runs

/-! What holds of a machine's routing table over every sequence of updates, withdrawals and priority commands. -/

namespace CourseArchive.Bgp

open Lib

inductive TableEvent (n : ℕ)
  | received (frame : Buffer) (ifaceIndex : Fin n)
  | withdrawn (target : AddressPrefix)
  | prioritySet (ifaceIndex priority : ℤ)

namespace SimulatedMachine

variable {n : ℕ} {m : SimulatedMachine n} {p q : HopByHopPath}

def tableStep (m : SimulatedMachine n) : TableEvent n → Option (SimulatedMachine n)
  | .received frame i => some (m.handleBgpUpdate frame i).1
  | .withdrawn target => some (m.withdraw target).1
  | .prioritySet i priority => some (m.settingPriority i priority)

def NonEmptyPaths (m : SimulatedMachine n) : TableEvent n → Prop
  | .received frame i => ∀ p ∈ m.updateRoutes frame.data i, p.ases ≠ []
  | _ => True

def SameRoute (p q : HopByHopPath) : Prop := p.destination = q.destination ∧ p.ases = q.ases

def OwnFirst (as : UInt16) (p : HopByHopPath) : Prop := ∃ rest, p.ases = as :: rest ∧ as ∉ rest

def AllOwnFirst (m : SimulatedMachine n) : Prop := ∀ p ∈ m.paths, OwnFirst m.asNumber p

def NoDuplicates (m : SimulatedMachine n) : Prop := m.paths.Pairwise fun p q => ¬SameRoute p q

def OneOrigin (m : SimulatedMachine n) : Prop :=
  ∀ p ∈ m.paths, ∀ q ∈ m.paths, p.destination = q.destination → p.ases.getLast? = q.ases.getLast?

/-! The three checks. -/

lemma detectLoop_eq_false (m : SimulatedMachine n) (p : HopByHopPath) :
    m.detectLoop p = false ↔ m.asNumber ∉ p.ases := by
  simp [detectLoop, List.forall_mem_ne']

lemma destination_eq_iff (p q : HopByHopPath) :
    q.destination.ip = p.destination.ip ∧ q.destination.mask = p.destination.mask ↔
    q.destination = p.destination := by
  cases q.destination
  cases p.destination
  simp

lemma thiefAmong_eq_false (p : HopByHopPath) (paths : List HopByHopPath) :
    thiefAmong p paths = some false ↔
      ∀ q ∈ paths, q.destination = p.destination → p.ases ≠ [] ∧ q.ases.getLast? = p.ases.getLast? := by
  induction paths with
  | nil => simp [thiefAmong]
  | cons q paths ih =>
    rw [thiefAmong, List.forall_mem_cons, ← ih]
    by_cases hd : q.destination = p.destination
    · rw [if_pos ((destination_eq_iff p q).mpr hd)]
      rcases List.eq_nil_or_concat p.ases with hp | ⟨ps, b, hp⟩
      · rcases List.eq_nil_or_concat q.ases with hq | ⟨qs, a, hq⟩ <;> simp [hp, hq, hd]
      · rcases List.eq_nil_or_concat q.ases with hq | ⟨qs, a, hq⟩
        · simp [hp, hq, hd]
        · by_cases hab : a = b <;> simp [hp, hq, hd, hab]
    · rw [if_neg ((destination_eq_iff p q).not.mpr hd)]
      simp [hd]

lemma detectThief_eq_false (m : SimulatedMachine n) (p : HopByHopPath) :
    m.detectThief p = some false ↔
      ∀ q ∈ m.paths, q.destination = p.destination → p.ases ≠ [] ∧ q.ases.getLast? = p.ases.getLast? :=
  thiefAmong_eq_false p m.paths

lemma equalPlaces_eq_length {xs ys : List UInt16} (h : xs.length = ys.length) :
    equalPlaces xs ys = xs.length ↔ xs = ys := by
  have hz : (xs.zip ys).length = xs.length := by simp [h]
  rw [equalPlaces, ← hz, List.countP_eq_length]
  constructor
  · intro he
    refine List.ext_getElem h fun k hx hy => ?_
    have := he (xs[k], ys[k]) (by
      rw [← List.getElem_zip (h := by rw [hz]; exact hx)]
      exact List.getElem_mem _)
    simpa using this
  · rintro rfl ⟨x, y⟩ hxy
    obtain ⟨k, hk, he⟩ := List.getElem_of_mem hxy
    rw [List.getElem_zip, Prod.mk.injEq] at he
    simp [← he.1, ← he.2]

lemma isInArchive_eq_false (m : SimulatedMachine n) (p : HopByHopPath) :
    m.isInArchive p = false ↔ ∀ q ∈ m.paths, ¬SameRoute q p := by
  simp only [isInArchive, List.any_eq_false, Bool.and_eq_true, beq_iff_eq, not_and]
  refine forall₂_congr fun q _ => ?_
  simp only [SameRoute, not_and]
  constructor
  · intro h hd ha
    exact h ⟨⟨by rw [hd], by rw [hd]⟩, by rw [ha]⟩ ((equalPlaces_eq_length (by rw [ha])).mpr ha.symm)
  · rintro h ⟨⟨hi, hm⟩, hl⟩ he
    refine h ?_ ((equalPlaces_eq_length hl).mp he).symm
    cases hq : q.destination
    cases hp : p.destination
    simp_all

/-! The three ways in which the table changes. -/

lemma acceptPath_cases (m : SimulatedMachine n) (out : List (Output n)) (p : HopByHopPath) :
    (acceptPath (m, out) p).1 = m ∨
      (m.asNumber ∉ p.ases ∧ (∀ q ∈ m.paths, q.destination = p.destination → q.ases.getLast? = p.ases.getLast?) ∧
        (∀ q ∈ m.paths, ¬SameRoute q { p with ases := m.asNumber :: p.ases }) ∧
        (acceptPath (m, out) p).1 = { m with paths := m.paths ++ [{ p with ases := m.asNumber :: p.ases }] }) := by
  simp only [acceptPath]
  split
  · exact .inl rfl
  · next hl =>
    split
    · exact .inl rfl
    · exact .inl rfl
    · next ht =>
      split
      · exact .inl rfl
      · next ha =>
        exact .inr ⟨(detectLoop_eq_false m p).mp (by simpa using hl),
          fun q hq hd => ((detectThief_eq_false m p).mp ht q hq hd).2,
          (isInArchive_eq_false m _).mp (by simpa using ha), rfl⟩

structure Kept (I : SimulatedMachine n → Prop) : Prop where
  emptied : ∀ m target, I m → I (m.emptyTrashPath target)
  prioritySet : ∀ m i priority, I m → I (m.settingPriority i priority)
  accepted : ∀ (m : SimulatedMachine n) (p : HopByHopPath), I m → p.ases ≠ [] → m.asNumber ∉ p.ases →
    (∀ q ∈ m.paths, q.destination = p.destination → q.ases.getLast? = p.ases.getLast?) →
    (∀ q ∈ m.paths, ¬SameRoute q { p with ases := m.asNumber :: p.ases }) →
    I { m with paths := m.paths ++ [{ p with ases := m.asNumber :: p.ases }] }

namespace Kept

variable {I : SimulatedMachine n → Prop}

lemma acceptPath (hI : Kept I) (h : I m) (out : List (Output n)) (hp : p.ases ≠ []) :
    I (acceptPath (m, out) p).1 := by
  rcases acceptPath_cases m out p with e | ⟨hloop, hthief, harchive, e⟩
  · rwa [e]
  · rw [e]
    exact hI.accepted m p h hp hloop hthief harchive

lemma foldl_acceptPath (hI : Kept I) {acc : SimulatedMachine n × List (Output n)} (h : I acc.1)
    {paths : List HopByHopPath} (hp : ∀ p ∈ paths, p.ases ≠ []) :
    I (paths.foldl SimulatedMachine.acceptPath acc).1 := by
  induction paths generalizing acc with
  | nil => exact h
  | cons p paths ih =>
    exact ih (hI.acceptPath h acc.2 (hp p List.mem_cons_self)) fun q hq => hp q (List.mem_cons_of_mem _ hq)

lemma foldl_emptyTrashPath (hI : Kept I) (h : I m) (targets : List AddressPrefix) :
    I (targets.foldl emptyTrashPath m) := by
  induction targets generalizing m with
  | nil => exact h
  | cons target targets ih => exact ih (hI.emptied m target h)

lemma tableStep {m' : SimulatedMachine n} (hI : Kept I) (h : I m) {e : TableEvent n} (hok : m.NonEmptyPaths e)
    (hstep : m.tableStep e = some m') : I m' := by
  cases e with
  | received frame i =>
    cases hstep
    rw [handleBgpUpdate_fst]
    exact hI.foldl_acceptPath (hI.foldl_emptyTrashPath h _) hok
  | withdrawn target =>
    cases hstep
    exact hI.emptied m target h
  | prioritySet i priority =>
    cases hstep
    exact hI.prioritySet m i priority h

lemma reaches {m' : SimulatedMachine n} (hI : Kept I) (h : I m)
    (hrun : Reaches SimulatedMachine.tableStep NonEmptyPaths m m') :
    I m' :=
  hrun.invariant I (fun _ _ _ hi hok hstep => hI.tableStep hi hok hstep) h

end Kept

lemma settingPriority_sameRoute (i priority : ℤ) (p : HopByHopPath) :
    SameRoute (if p.startInterface = i then { p with priority } else p) p := by
  split <;> exact ⟨rfl, rfl⟩

lemma mem_settingPriority {i priority : ℤ} (h : p ∈ (m.settingPriority i priority).paths) :
    ∃ q ∈ m.paths, SameRoute p q := by
  obtain ⟨q, hq, rfl⟩ := List.mem_map.mp h
  exact ⟨q, hq, settingPriority_sameRoute i priority q⟩

lemma mem_accepted {r : HopByHopPath} (h : q ∈ m.paths ++ [r]) : q ∈ m.paths ∨ q = r := by
  simpa using h

lemma kept_allOwnFirst : Kept (AllOwnFirst (n := n)) where
  emptied _ _ h p hp := h p (List.mem_of_mem_filter hp)
  prioritySet m _ _ h p hp := by
    obtain ⟨q, hq, -, hases⟩ := mem_settingPriority hp
    obtain ⟨rest, hr, hn⟩ := h q hq
    exact ⟨rest, hases.trans hr, hn⟩
  accepted m p h _ hloop _ _ q hq := by
    rcases mem_accepted hq with hq | rfl
    · exact h q hq
    · exact ⟨p.ases, rfl, hloop⟩

lemma kept_noDuplicates : Kept (NoDuplicates (n := n)) where
  emptied _ _ h := h.sublist List.filter_sublist
  prioritySet m i priority h := by
    refine List.pairwise_map.mpr (h.imp fun {p q} hpq hs => hpq ?_)
    obtain ⟨hd, ha⟩ := settingPriority_sameRoute i priority p
    obtain ⟨hd', ha'⟩ := settingPriority_sameRoute i priority q
    exact ⟨hd.symm.trans (hs.1.trans hd'), ha.symm.trans (hs.2.trans ha')⟩
  accepted m p h _ _ _ harchive := by
    refine List.pairwise_append.mpr ⟨h, List.pairwise_singleton _ _, fun q hq r hr => ?_⟩
    obtain rfl := List.mem_singleton.mp hr
    exact harchive q hq

lemma kept_oneOrigin : Kept (OneOrigin (n := n)) where
  emptied _ _ h p hp q hq := h p (List.mem_of_mem_filter hp) q (List.mem_of_mem_filter hq)
  prioritySet m _ _ h p hp q hq hd := by
    obtain ⟨p', hp', hd₁, ha₁⟩ := mem_settingPriority hp
    obtain ⟨q', hq', hd₂, ha₂⟩ := mem_settingPriority hq
    rw [ha₁, ha₂]
    exact h p' hp' q' hq' (hd₁.symm.trans (hd.trans hd₂))
  accepted m p h hne _ hthief _ q hq r hr hd := by
    have hlast : (m.asNumber :: p.ases).getLast? = p.ases.getLast? := List.getLast?_cons_of_ne_nil hne
    rcases mem_accepted hq with hq | rfl <;> rcases mem_accepted hr with hr | rfl
    · exact h q hq r hr hd
    · exact (hthief q hq hd).trans hlast.symm
    · exact hlast.trans (hthief r hr hd.symm).symm
    · rfl

lemma mem_initializeMachine {info : CustomInformation n} {timer : Fin n → UInt8}
    (h : p ∈ (initializeMachine info timer).paths) : p.ases = [info.asNumber] := by
  obtain ⟨asset, -, rfl⟩ := List.mem_map.mp h
  rfl

/-- Every stored route starts with the machine's own AS, which occurs nowhere else in it, and no two routes agree
in destination and AS path. -/
theorem own_first_and_no_duplicates (info : CustomInformation n) (timer : Fin n → UInt8)
    (hassets : info.assets.Nodup) (h : Reaches tableStep NonEmptyPaths (initializeMachine info timer) m) :
    (∀ p ∈ m.paths, OwnFirst m.asNumber p) ∧ m.paths.Pairwise fun p q => ¬SameRoute p q := by
  constructor
  · refine kept_allOwnFirst.reaches (fun p hp => ?_) h
    exact ⟨[], mem_initializeMachine hp, List.not_mem_nil⟩
  · refine kept_noDuplicates.reaches ?_ h
    exact List.pairwise_map.mpr (hassets.imp fun hne hs => hne hs.1)

def smallNeighbor : SimulatedMachine 1 :=
  initializeMachine ⟨fun _ => 2, 9, [⟨2886729728, 12⟩], fun _ => 1, fun _ => .provider⟩ fun _ => 0

def smallUpdate : Buffer := (smallNeighbor.updateMessage 0 (fun _ => 0) smallNeighbor.paths).getD (packet [])

lemma smallUpdate_nonEmptyPaths : smallMachine.NonEmptyPaths (.received smallUpdate 0) := by
  change ∀ p ∈ smallMachine.updateRoutes smallUpdate.data 0, p.ases ≠ []
  decide

theorem own_first_and_no_duplicates_small :
    ((smallMachine.handleBgpUpdate smallUpdate 0).1.paths.map (·.ases) = [[7], [7, 9]]) ∧
    (∀ p ∈ (smallMachine.handleBgpUpdate smallUpdate 0).1.paths, OwnFirst 7 p) ∧
      (smallMachine.handleBgpUpdate smallUpdate 0).1.paths.Pairwise fun p q => ¬SameRoute p q :=
  ⟨by decide, own_first_and_no_duplicates ⟨fun _ => 1, 7, [⟨167772160, 8⟩], fun _ => 2, fun _ => .customer⟩
    (fun _ => 0) (by decide) (.single ⟨.received smallUpdate 0, smallUpdate_nonEmptyPaths, rfl⟩)⟩

/-! Origins. -/

def withdrawnBy : TableEvent n → List AddressPrefix
  | .received frame _ => updateWithdrawals frame.data
  | .withdrawn target => [target]
  | .prioritySet _ _ => []

def afterWithdrawals (m : SimulatedMachine n) (e : TableEvent n) : SimulatedMachine n :=
  (withdrawnBy e).foldl emptyTrashPath m

lemma mem_paths_of_afterWithdrawals {e : TableEvent n} (h : p ∈ (m.afterWithdrawals e).paths) : p ∈ m.paths := by
  rw [afterWithdrawals] at h
  generalize withdrawnBy e = targets at h
  induction targets generalizing m with
  | nil => exact h
  | cons target targets ih => exact List.mem_of_mem_filter (ih h)

lemma mem_foldl_acceptPath {acc : SimulatedMachine n × List (Output n)} (paths : List HopByHopPath)
    (h : p ∈ acc.1.paths) : p ∈ (paths.foldl acceptPath acc).1.paths := by
  induction paths generalizing acc with
  | nil => exact h
  | cons q paths ih =>
    refine ih ?_
    rcases acceptPath_cases acc.1 acc.2 q with e | ⟨-, -, -, e⟩
    · rwa [e]
    · rw [e]
      exact List.mem_append_left _ h

lemma tableStep_keeps {m' : SimulatedMachine n} {e : TableEvent n} (hstep : m.tableStep e = some m')
    (h : p ∈ (m.afterWithdrawals e).paths) : ∃ q ∈ m'.paths, SameRoute q p := by
  cases e with
  | received frame i =>
    cases hstep
    rw [handleBgpUpdate_fst]
    exact ⟨p, mem_foldl_acceptPath _ h, rfl, rfl⟩
  | withdrawn target =>
    cases hstep
    exact ⟨p, h, rfl, rfl⟩
  | prioritySet i priority =>
    cases hstep
    refine ⟨_, List.mem_map.mpr ⟨p, h, rfl⟩, ?_⟩
    split <;> exact ⟨rfl, rfl⟩

lemma reaches_oneOrigin {info : CustomInformation n} {timer : Fin n → UInt8}
    (h : Reaches tableStep NonEmptyPaths (initializeMachine info timer) m) : OneOrigin m := by
  refine kept_oneOrigin.reaches (fun p hp q hq _ => ?_) h
  rw [mem_initializeMachine hp, mem_initializeMachine hq]

/-- All routes to one destination have one origin, and a route from another origin can only be in the table after
an event that has withdrawn every route to the destination. -/
theorem one_origin_until_withdrawn (info : CustomInformation n) (timer : Fin n → UInt8)
    (h : Reaches tableStep NonEmptyPaths (initializeMachine info timer) m) :
    (∀ p ∈ m.paths, ∀ q ∈ m.paths, p.destination = q.destination → p.ases.getLast? = q.ases.getLast?) ∧
    ∀ m', Reaches tableStep NonEmptyPaths m m' → ∀ p ∈ m.paths, ∀ q ∈ m'.paths, p.destination = q.destination →
      p.ases.getLast? ≠ q.ases.getLast? →
      ∃ m₁ e m₂, Reaches tableStep NonEmptyPaths m m₁ ∧ m₁.tableStep e = some m₂ ∧
        Reaches tableStep NonEmptyPaths m₂ m' ∧ ∀ r ∈ (m₁.afterWithdrawals e).paths,
        r.destination ≠ p.destination := by
  refine ⟨reaches_oneOrigin h, ?_⟩
  intro m' hrun p hp
  induction hrun with
  | refl =>
    intro q hq hd ho
    exact absurd (reaches_oneOrigin h p hp q hq hd) ho
  | @tail m₁ m₂ hrun hlast ih =>
    intro q hq hd ho
    obtain ⟨e, hok, hstep⟩ := hlast
    by_cases hgone : ∀ r ∈ (m₁.afterWithdrawals e).paths, r.destination ≠ p.destination
    · exact ⟨m₁, e, m₂, hrun, hstep, .refl, hgone⟩
    -- a route that the withdrawals leave has the origin of `q`, and it was there before the event
    push Not at hgone
    obtain ⟨r, hr, hrd⟩ := hgone
    obtain ⟨r', hr', hdest, hases⟩ := tableStep_keeps hstep hr
    have hinv := reaches_oneOrigin (h.trans (hrun.tail ⟨e, hok, hstep⟩))
    have horigin : r.ases.getLast? = q.ases.getLast? := by
      rw [← hases]
      exact hinv r' hr' q hq (hdest.trans (hrd.trans hd))
    obtain ⟨m₃, e', m₄, h₁, h₂, h₃, h₄⟩ :=
      ih r (mem_paths_of_afterWithdrawals hr) hrd.symm (by rw [horigin]; exact ho)
    exact ⟨m₃, e', m₄, h₁, h₂, h₃.tail ⟨e, hok, hstep⟩, h₄⟩

theorem one_origin_until_withdrawn_small :
    ((smallMachine.handleBgpUpdate smallUpdate 0).1.paths.map (·.ases) = [[7], [7, 9]]) ∧
    ∀ p ∈ (smallMachine.handleBgpUpdate smallUpdate 0).1.paths,
      ∀ q ∈ (smallMachine.handleBgpUpdate smallUpdate 0).1.paths,
        p.destination = q.destination → p.ases.getLast? = q.ases.getLast? :=
  ⟨by decide, (one_origin_until_withdrawn
    ⟨fun _ => 1, 7, [⟨167772160, 8⟩], fun _ => 2, fun _ => .customer⟩ (fun _ => 0)
    (.single ⟨.received smallUpdate 0, smallUpdate_nonEmptyPaths, rfl⟩)).1⟩

end SimulatedMachine

end CourseArchive.Bgp
