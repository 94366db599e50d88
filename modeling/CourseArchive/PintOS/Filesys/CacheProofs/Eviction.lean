import CourseArchive.PintOS.Filesys.BufferCache

/-! The clock of `cache_evict` stops within two rounds, and touches nothing but reference flags and its own
hand. -/

namespace CourseArchive.PintOS.CachedDisk

open Lib Function

def core (c : CacheCell) : CacheCell := { c with recentlyAccessed := false }

def Ready (c : CacheCell) : Prop := c.valid = false ∨ c.numUsing ≤ 0 ∧ c.recentlyAccessed = false

def Unpinned (c : CacheCell) : Prop := c.valid = false ∨ c.numUsing ≤ 0

instance (c : CacheCell) : Decidable (Ready c) := inferInstanceAs (Decidable (_ ∨ _ ∧ _))

instance (c : CacheCell) : Decidable (Unpinned c) := inferInstanceAs (Decidable (_ ∨ _))

structure FlagsCleared (s t : CachedDisk) : Prop where
  device : t.device = s.device
  hit : t.cacheHit = s.cacheHit
  miss : t.cacheMiss = s.cacheMiss
  core_eq : ∀ i, core (t.cache i) = core (s.cache i)
  flag : ∀ i, (s.cache i).recentlyAccessed = false → (t.cache i).recentlyAccessed = false

namespace FlagsCleared

variable {s t : CachedDisk}

lemma valid_eq (h : FlagsCleared s t) (i : Fin cacheSize) : (t.cache i).valid = (s.cache i).valid := by
  simpa [core] using congrArg CacheCell.valid (h.core_eq i)

lemma numUsing_eq (h : FlagsCleared s t) (i : Fin cacheSize) :
    (t.cache i).numUsing = (s.cache i).numUsing := by
  simpa [core] using congrArg CacheCell.numUsing (h.core_eq i)

lemma ready (h : FlagsCleared s t) {i : Fin cacheSize} (hi : Ready (s.cache i)) : Ready (t.cache i) := by
  rcases hi with hv | ⟨hn, hf⟩
  · exact Or.inl (by rw [h.valid_eq, hv])
  · exact Or.inr ⟨by rw [h.numUsing_eq]; exact hn, h.flag i hf⟩

end FlagsCleared

def fromHand (s : CachedDisk) (k : ℕ) : Fin cacheSize := s.clockIdx + Fin.ofNat cacheSize k

def passed (s : CachedDisk) (k : ℕ) : CachedDisk :=
  { s with
    clockIdx := s.fromHand (k - 1)
    cache := fun j => if Unpinned (s.cache j) ∧ ∃ m < k, j = s.fromHand m then
      { s.cache j with recentlyAccessed := false } else s.cache j }

variable {s : CachedDisk} {k : ℕ}

lemma fromHand_zero (s : CachedDisk) : s.fromHand 0 = s.clockIdx := by simp [fromHand]

lemma fromHand_succ (s : CachedDisk) (k : ℕ) : s.fromHand (k + 1) = s.fromHand k + 1 := by
  rw [fromHand, fromHand, add_assoc]
  congr 1
  apply Fin.ext
  simp [Fin.val_add]

lemma fromHand_round (s : CachedDisk) (k : ℕ) : s.fromHand (cacheSize + k) = s.fromHand k := by
  rw [fromHand, fromHand]
  congr 1
  apply Fin.ext
  simp

lemma exists_fromHand (s : CachedDisk) (i : Fin cacheSize) : ∃ k < cacheSize, s.fromHand k = i := by
  refine ⟨(i - s.clockIdx).val, (i - s.clockIdx).isLt, ?_⟩
  rw [fromHand, Fin.ofNat_val_eq_self]
  exact add_sub_cancel s.clockIdx i

lemma passed_zero (s : CachedDisk) : s.passed 0 = s := by
  simp [passed, fromHand_zero]

lemma passed_cache (s : CachedDisk) (k : ℕ) (j : Fin cacheSize) : (s.passed k).cache j =
    if Unpinned (s.cache j) ∧ ∃ m < k, j = s.fromHand m then { s.cache j with recentlyAccessed := false }
    else s.cache j := rfl

lemma passed_valid (s : CachedDisk) (k : ℕ) (j : Fin cacheSize) :
    ((s.passed k).cache j).valid = (s.cache j).valid := by
  rw [passed_cache]
  split <;> rfl

lemma passed_numUsing (s : CachedDisk) (k : ℕ) (j : Fin cacheSize) :
    ((s.passed k).cache j).numUsing = (s.cache j).numUsing := by
  rw [passed_cache]
  split <;> rfl

lemma flagsCleared_passed (s : CachedDisk) (k : ℕ) (i : Fin cacheSize) :
    FlagsCleared s { s.passed k with clockIdx := i } := by
  refine ⟨rfl, rfl, rfl, fun j => ?_, fun j hj => ?_⟩
  · change core ((s.passed k).cache j) = _
    rw [passed_cache]
    split <;> rfl
  · change ((s.passed k).cache j).recentlyAccessed = false
    rw [passed_cache]
    split
    · rfl
    · exact hj

lemma passed_succ_cache (s : CachedDisk) (k : ℕ) (j : Fin cacheSize) : (s.passed (k + 1)).cache j =
    if Unpinned (s.cache j) ∧ j = s.fromHand k then { s.cache j with recentlyAccessed := false }
    else (s.passed k).cache j := by
  rw [passed_cache, passed_cache]
  by_cases hu : Unpinned (s.cache j)
  · simp only [hu, true_and, Nat.lt_succ_iff_lt_or_eq, or_and_right, exists_or, exists_eq_left]
    by_cases hj : j = s.fromHand k <;> simp [hj]
  · simp only [hu, false_and, if_false]

lemma evict_stops (h : Ready ((s.passed k).cache (s.fromHand k))) (fuel : ℕ) :
    evictFrom (fuel + 1) (s.fromHand k) (s.passed k) =
      .ok (s.fromHand k, { s.passed k with clockIdx := s.fromHand k }) := by
  by_cases hv : ((s.passed k).cache (s.fromHand k)).valid = false
  · simp only [evictFrom, bind_get, if_pos hv, bind_modify, pure_run]
  · obtain ⟨hn, hf⟩ := h.resolve_left hv
    simp only [evictFrom, bind_get, if_neg hv, if_pos hn, hf, Bool.false_eq_true, if_false, bind_modify, pure_run]

lemma evict_passes (h : ¬ Ready ((s.passed k).cache (s.fromHand k))) (fuel : ℕ) :
    evictFrom (fuel + 1) (s.fromHand k) (s.passed k) = evictFrom fuel (s.fromHand (k + 1)) (s.passed (k + 1)) := by
  obtain ⟨hv, hf⟩ := not_or.mp h
  rw [fromHand_succ]
  by_cases hn : ((s.passed k).cache (s.fromHand k)).numUsing ≤ 0
  · have hflag : ((s.passed k).cache (s.fromHand k)).recentlyAccessed = true := by simpa [hn] using hf
    have hu : Unpinned (s.cache (s.fromHand k)) := Or.inr (passed_numUsing s k _ ▸ hn)
    have hcache : put (s.passed k).cache (s.fromHand k)
        { (s.passed k).cache (s.fromHand k) with recentlyAccessed := false } = (s.passed (k + 1)).cache := by
      funext j
      rw [passed_succ_cache, put_apply]
      by_cases hj : j = s.fromHand k
      · subst hj
        rw [if_pos rfl, if_pos ⟨hu, rfl⟩, passed_cache]
        split <;> rfl
      · rw [if_neg hj, if_neg fun hc => hj hc.2]
    simp only [evictFrom, bind_get, if_neg hv, if_pos hn, if_pos hflag, bind_modify, setCell, hcache]
    rfl
  · have hu : ¬ Unpinned (s.cache (s.fromHand k)) := by
      rw [passed_valid] at hv
      rw [passed_numUsing] at hn
      exact not_or.mpr ⟨hv, hn⟩
    have hcache : (s.passed k).cache = (s.passed (k + 1)).cache := by
      funext j
      rw [passed_succ_cache, if_neg]
      rintro ⟨hj, rfl⟩
      exact hu hj
    have hstate : { s.passed k with clockIdx := s.fromHand k } = s.passed (k + 1) := by
      change (⟨s.device, (s.passed k).cache, s.fromHand k, s.cacheHit, s.cacheMiss⟩ : CachedDisk) = _
      rw [hcache]
      rfl
    simp only [evictFrom, bind_get, if_neg hv, if_neg hn, bind_modify, hstate]

lemma evict_runs {n : ℕ} (h : ∀ k < n, ¬ Ready ((s.passed k).cache (s.fromHand k))) (fuel : ℕ) :
    evictFrom (n + fuel) s.clockIdx s = evictFrom fuel (s.fromHand n) (s.passed n) := by
  induction n generalizing fuel with
  | zero => rw [fromHand_zero, passed_zero, Nat.zero_add]
  | succ n ih =>
    rw [Nat.add_assoc, Nat.add_comm 1, ih (fun k hk => h k (by omega)), evict_passes (h n (by omega))]

lemma ready_passed {p : ℕ} (hp : Unpinned (s.cache (s.fromHand p))) :
    Ready ((s.passed (cacheSize + p)).cache (s.fromHand (cacheSize + p))) := by
  -- a cell that can be given up is ready when the loop comes to it again
  rw [fromHand_round, passed_cache, if_pos ⟨hp, p, by simp, rfl⟩]
  exact hp.imp_right fun hn => ⟨hn, rfl⟩

lemma evict_run (h : ∃ i, Unpinned (s.cache i)) : ∃ n < 2 * cacheSize,
    (∀ k < n, ¬ Ready ((s.passed k).cache (s.fromHand k))) ∧ Ready ((s.passed n).cache (s.fromHand n)) ∧
    ∀ fuel, n < fuel → evictFrom fuel s.clockIdx s =
      .ok (s.fromHand n, { s.passed n with clockIdx := s.fromHand n }) := by
  obtain ⟨i, hi⟩ := h
  obtain ⟨p, hp, rfl⟩ := s.exists_fromHand i
  have hex : ∃ k, Ready ((s.passed k).cache (s.fromHand k)) := ⟨_, ready_passed hi⟩
  have hle := Nat.find_min' hex (ready_passed hi)
  refine ⟨Nat.find hex, by omega, fun k hk => Nat.find_min hex hk, Nat.find_spec hex, fun fuel hfuel => ?_⟩
  obtain ⟨d, rfl⟩ := Nat.exists_eq_add_of_lt hfuel
  rw [Nat.add_assoc, evict_runs fun k hk => Nat.find_min hex hk]
  exact evict_stops (Nat.find_spec hex) d

lemma evict_unpinned (s : CachedDisk) (hp : ∀ i, Unpinned (s.cache i)) :
    Returns cacheEvict s fun idx t => FlagsCleared s t ∧ Ready (t.cache idx) := by
  obtain ⟨n, hn, -, hready, hrun⟩ := evict_run ⟨0, hp 0⟩
  exact ⟨_, _, hrun (2 * cacheSize + 1) (by omega), flagsCleared_passed s n _, hready⟩

structure FlagsOnly (s : CachedDisk) (n : ℕ) (t : CachedDisk) : Prop where
  others : t = { s with clockIdx := t.clockIdx, cache := t.cache }
  cells : ∀ j, t.cache j = s.cache j ∨ Unpinned (s.cache j) ∧ (∃ k < n, j = s.fromHand k) ∧
    t.cache j = { s.cache j with recentlyAccessed := false }

/-- With a cell that is not pinned, `cache_evict` looks at `n + 1` cells from the hand on, at most two rounds, and
stops at the last of them; no cell before it could be given up as it was. -/
theorem evict_clock (s : CachedDisk) (h : ∃ i, Unpinned (s.cache i)) : ∃ n < 2 * cacheSize, ∃ t,
    cacheEvict s = .ok (s.fromHand n, t) ∧
    (∀ fuel, n < fuel → evictFrom fuel s.clockIdx s = .ok (s.fromHand n, t)) ∧
    Ready (t.cache (s.fromHand n)) ∧ FlagsOnly s n t ∧ ∀ k < n, ¬ Ready (s.cache (s.fromHand k)) := by
  obtain ⟨n, hn, hbefore, hready, hrun⟩ := evict_run h
  refine ⟨n, hn, _, hrun (2 * cacheSize + 1) (by omega), hrun, hready, ⟨rfl, fun j => ?_⟩, fun k hk hk' => ?_⟩
  · change (s.passed n).cache j = _ ∨ _ ∧ _ ∧ (s.passed n).cache j = _
    rw [passed_cache]
    split
    · next hj => exact Or.inr ⟨hj.1, hj.2, rfl⟩
    · exact Or.inl rfl
  · exact hbefore k hk ((flagsCleared_passed s k (s.fromHand (k - 1))).ready hk')

def busyCache : CachedDisk where
  device := ⟨4, fun _ => Block.ofBytes fun _ => 0⟩
  cache := fun i => ⟨Block.ofBytes fun _ => 0, 0, false, true, true, if i = 5 then 0 else 1⟩
  clockIdx := 60
  cacheHit := 0
  cacheMiss := 0

theorem evict_clock_busy : ∃ t, cacheEvict busyCache = .ok (5, t) ∧ (t.cache 5).recentlyAccessed = false := by
  obtain ⟨n, -, t, hrun, -, hready, hflags, -⟩ := evict_clock busyCache ⟨5, Or.inr le_rfl⟩
  have hcells : ∀ j, (t.cache j).valid = true ∧ (t.cache j).numUsing = (busyCache.cache j).numUsing := by
    intro j
    rcases hflags.cells j with hj | ⟨-, -, hj⟩ <;> rw [hj] <;> exact ⟨rfl, rfl⟩
  have hfive : busyCache.fromHand n = 5 := by
    by_contra hne
    rcases hready with hv | ⟨hn, -⟩
    · rw [(hcells _).1] at hv
      cases hv
    · have hbusy :
        (busyCache.cache (busyCache.fromHand n)).numUsing = if busyCache.fromHand n = 5 then 0 else 1 := rfl
      rw [(hcells _).2, hbusy, if_neg hne] at hn
      omega
  rw [hfive] at hrun hready
  refine ⟨t, hrun, ?_⟩
  rcases hready with hv | ⟨-, hf⟩
  · rw [(hcells 5).1] at hv
    cases hv
  · exact hf

end CourseArchive.PintOS.CachedDisk
