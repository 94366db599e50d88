import CourseArchive.PintOS.Filesys.CacheProofs.Transparency

/-! What a cached write does to the device under cells that need not agree with it. -/

namespace CourseArchive.PintOS.CachedDisk

open Lib Function

structure Usable (s : CachedDisk) : Prop where
  idle : Idle s
  backed : Backed s

def Plain (s : CachedDisk) (x : BlockSector) : Prop := ∀ i, (s.cache i).dirty = true → (s.cache i).sectorIdx ≠ x

variable {s t : CachedDisk} {x : BlockSector}

lemma Plain.writtenBack {y : BlockSector} (h : s.Plain y) (i : Fin cacheSize) :
    (s.writtenBack i).sectors y = s.device.sectors y := by
  rw [CachedDisk.writtenBack]
  split
  · next hd => exact update_of_ne (h i hd).symm _ _
  · rfl

lemma FlagsCleared.sectorIdx_eq (h : FlagsCleared s t) (i : Fin cacheSize) :
    (t.cache i).sectorIdx = (s.cache i).sectorIdx := congrArg Line.key (congrFun h.lines_eq i)

lemma FlagsCleared.plain {y : BlockSector} (h : FlagsCleared s t) (hs : s.Plain y) : t.Plain y := by
  intro i hd
  rw [h.sectorIdx_eq]
  rw [h.dirty_eq] at hd
  exact hs i hd

structure Loaded (s : CachedDisk) (x : BlockSector) (i : Fin cacheSize) (t : CachedDisk) : Prop where
  used : UsedOnce t i
  backed : Backed t
  sector : (t.cache i).sectorIdx = x
  size : t.device.size = s.device.size
  plain : ∀ {y}, s.Plain y → t.Plain y
  sectors : ∀ {y}, s.Plain y → t.device.sectors y = s.device.sectors y

lemma fetch_loaded (h : Usable s) (hx : s.device.Contains x) : Returns (cacheFetch x) s (Loaded s x) := by
  rcases fetch_steps h.backed h.idle hx with ⟨i, hf, he⟩ | ⟨-, i, u, hc, he⟩
  · have hsame : ∀ j, ((setCell i (s.taken i) s).cache j).dirty = (s.cache j).dirty ∧
        ((setCell i (s.taken i) s).cache j).sectorIdx = (s.cache j).sectorIdx := by
      intro j
      by_cases hj : j = i
      · subst hj; simp [setCell, taken]
      · simp [setCell, put_of_ne, hj]
    refine ⟨i, _, he, ?_, ?_, ?_, rfl, ?_, fun _ => rfl⟩
    · intro j
      by_cases hj : j = i
      · subst hj; simp [setCell, taken, h.idle j]
      · simp [setCell, put_of_ne, hj, h.idle j]
    · intro j hd
      have hb := h.backed j ((hsame j).1.symm.trans hd)
      rwa [← (hsame j).2] at hb
    · exact (hsame i).2.trans (findCell_some hf).2
    · intro y hy j hd hs
      exact hy j ((hsame j).1.symm.trans hd) ((hsame j).2.symm.trans hs)
  · have hdev : u.device = s.device := hc.device
    have hcell : ∀ j, ((setCell i (u.loaded i x) u).cache j).dirty = true →
        (s.cache j).dirty = true ∧ ((setCell i (u.loaded i x) u).cache j).sectorIdx = (s.cache j).sectorIdx := by
      intro j hd
      by_cases hj : j = i
      · subst hj; simp [setCell, loaded] at hd
      · simp only [setCell, put_of_ne _ _ hj] at hd ⊢
        exact ⟨(hc.dirty_eq j).symm.trans hd, hc.sectorIdx_eq j⟩
    refine ⟨i, _, he, ?_, ?_, by simp [setCell, loaded], ?_, ?_, ?_⟩
    · intro j
      by_cases hj : j = i
      · subst hj; simp [setCell, loaded]
      · simp only [setCell, put_of_ne _ _ hj, if_neg hj]
        exact (hc.numUsing_eq j).trans (h.idle j)
    · intro j hd
      obtain ⟨hd', hs⟩ := hcell j hd
      change (u.writtenBack i).Contains ((setCell i (u.loaded i x) u).cache j).sectorIdx
      rw [hs, Device.Contains, writtenBack_size, hdev]
      exact h.backed j hd'
    · change (u.writtenBack i).size = _
      rw [writtenBack_size, hdev]
    · intro y hy j hd hs
      obtain ⟨hd', hs'⟩ := hcell j hd
      exact hy j hd' (hs'.symm.trans hs)
    · intro y hy
      change (u.writtenBack i).sectors y = _
      rw [(hc.plain hy).writtenBack, hdev]

structure Through (s : CachedDisk) (x : BlockSector) (t : CachedDisk) : Prop where
  usable : Usable t
  size : t.device.size = s.device.size
  plain : ∀ {y}, y ≠ x → s.Plain y → t.Plain y
  sectors : ∀ {y}, s.Plain y → t.device.sectors y = s.device.sectors y

lemma write_through (h : Usable s) (hx : s.device.Contains x) {off : ℕ} {buf : List UInt8}
    (hn : off + buf.length ≤ blockSectorSize) : Returns (cacheWrite x off buf) s fun _ t => Through s x t := by
  refine (fetch_loaded h hx).bind fun i t ht => ?_
  let c : CacheCell := { t.cache i with
    blockData := (t.cache i).blockData.patch off buf
    dirty := true
    numUsing := (t.cache i).numUsing - 1
    recentlyAccessed := true }
  refine ⟨(), setCell i c t, ?_, ⟨ht.used.release c rfl, ?_⟩, ht.size, ?_, ht.sectors⟩
  · rw [if_neg (by omega)]
    rfl
  · intro j hd
    by_cases hj : j = i
    · subst hj
      have hs : ((setCell j c t).cache j).sectorIdx = x := by simpa [setCell, c] using ht.sector
      rw [hs, Device.Contains, device_setCell, ht.size]
      exact hx
    · simp only [setCell, put_of_ne _ _ hj] at hd ⊢
      exact ht.backed j hd
  · intro y hyx hy j hd
    by_cases hj : j = i
    · subst hj
      have hs : ((setCell j c t).cache j).sectorIdx = x := by simpa [setCell, c] using ht.sector
      rw [hs]
      exact hyx.symm
    · simp only [setCell, put_of_ne _ _ hj] at hd ⊢
      exact ht.plain hy j hd

end CourseArchive.PintOS.CachedDisk
