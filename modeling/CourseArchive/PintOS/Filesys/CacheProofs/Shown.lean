import CourseArchive.PintOS.Filesys.CacheProofs.WriteThrough

/-! What the cache shows of one sector, whatever it holds of the others. -/

namespace CourseArchive.PintOS.CachedDisk

open Lib Function

structure Orderly (s : CachedDisk) : Prop extends Usable s where
  unique : UniqueLines (lines s)
  clean_of_invalid : ∀ i, (s.cache i).valid = false → (s.cache i).dirty = false

def Shows (s : CachedDisk) (x : BlockSector) (P : Sector → Prop) : Prop := Lib.Shows s.device.sectors (lines s) x P

structure Preserves (w : BlockSector → Prop) (s t : CachedDisk) : Prop where
  orderly : s.Orderly → t.Orderly
  shows : s.Orderly → ∀ {y P}, ¬ w y → s.Shows y P → t.Shows y P

namespace Preserves

variable {w w' : BlockSector → Prop} {s t v : CachedDisk}

lemma refl (s : CachedDisk) : Preserves w s s := ⟨id, fun _ _ _ _ => id⟩

lemma trans (h : Preserves w s t) (h' : Preserves w t v) : Preserves w s v :=
  ⟨fun hs => h'.orderly (h.orderly hs), fun hs _ _ hy hp => h'.shows (h.orderly hs) hy (h.shows hs hy hp)⟩

lemma mono (h : Preserves w s t) (hw : ∀ y, w y → w' y) : Preserves w' s t :=
  ⟨h.orderly, fun hs _ _ hy => h.shows hs fun hwy => hy (hw _ hwy)⟩

end Preserves

variable {s t : CachedDisk} {x : BlockSector}

lemma Orderly.holds_of_dirty (h : Orderly s) {i : Fin cacheSize} (hd : (s.cache i).dirty = true) :
    (lines s i).Holds (s.cache i).sectorIdx := by
  refine ⟨?_, rfl⟩
  by_contra hv
  rw [h.clean_of_invalid i (by simpa [lines, line] using hv)] at hd
  cases hd

lemma FlagsCleared.shows (h : FlagsCleared s t) {y : BlockSector} {P : Sector → Prop} (hs : s.Shows y P) :
    t.Shows y P := by
  rw [Shows, h.device, h.lines_eq]
  exact hs

lemma Orderly.shows_writtenBack (h : Orderly s) (i : Fin cacheSize) {y : BlockSector} {P : Sector → Prop}
    (hs : s.Shows y P) : Lib.Shows (s.writtenBack i).sectors (lines s) y P ∧
      ((lines s i).Holds y → P ((s.writtenBack i).sectors y)) := by
  rw [writtenBack]
  by_cases hd : (s.cache i).dirty = true
  · rw [if_pos hd]
    refine ⟨hs.write_back (h.holds_of_dirty hd), ?_⟩
    rintro ⟨hv, rfl⟩
    change P (update s.device.sectors (s.cache i).sectorIdx (s.cache i).blockData (s.cache i).sectorIdx)
    rw [update_self]
    exact hs.held ⟨hv, rfl⟩
  · rw [if_neg hd]
    exact ⟨hs, fun hi => hs.clean hi (by simpa [lines, line] using hd)⟩

structure Brought (s : CachedDisk) (x : BlockSector) (i : Fin cacheSize) (t : CachedDisk) : Prop where
  holds : (lines t i).Holds x
  unique : UniqueLines (lines t)
  clean_of_invalid : ∀ j, (t.cache j).valid = false → (t.cache j).dirty = false
  shows : ∀ {y P}, s.Shows y P → t.Shows y P

lemma clean_of_invalid_setCell (h : ∀ j, (s.cache j).valid = false → (s.cache j).dirty = false) {i : Fin cacheSize}
    {c : CacheCell} (hc : c.valid = false → c.dirty = false) (j : Fin cacheSize)
    (hj : ((setCell i c s).cache j).valid = false) : ((setCell i c s).cache j).dirty = false := by
  by_cases he : j = i
  · subst he
    simp only [setCell, put_self] at hj ⊢
    exact hc hj
  · simp only [setCell, put_of_ne _ _ he] at hj ⊢
    exact h j hj

lemma fetch_brought (h : Orderly s) (hx : s.device.Contains x) : Returns (cacheFetch x) s (Brought s x) := by
  rcases fetch_steps h.backed h.idle hx with ⟨i, hf, he⟩ | ⟨hf, i, u, hc, he⟩
  · have hl : lines (setCell i (s.taken i) { s with cacheHit := s.cacheHit + 1 }) = lines s := by
      rw [lines_setCell]
      exact update_eq_self i (lines s)
    refine ⟨i, _, he, ?_, ?_, ?_, fun {y P} hs => ?_⟩
    · rw [hl]
      exact findCell_some hf
    · rw [hl]
      exact h.unique
    · exact clean_of_invalid_setCell (s := { s with cacheHit := s.cacheHit + 1 }) h.clean_of_invalid
        (h.clean_of_invalid i)
    · rw [Shows, hl]
      exact hs
  · have hn : ∀ j, ¬ (lines u j).Holds x := by
      intro j hj
      rw [hc.lines_eq] at hj
      exact findCell_none hf ⟨j, hj⟩
    have hu : Orderly u := by
      refine ⟨⟨fun j => (hc.numUsing_eq j).trans (h.idle j), fun j hd => ?_⟩, ?_, fun j hj => ?_⟩
      · rw [hc.dirty_eq j] at hd
        rw [hc.sectorIdx_eq j, hc.device]
        exact h.backed j hd
      · rw [hc.lines_eq]
        exact h.unique
      · rw [hc.dirty_eq j]
        exact h.clean_of_invalid j (by rw [← hj]; exact (hc.valid_eq j).symm)
    have hl : lines (setCell i (u.loaded i x) { u with device := u.writtenBack i }) =
        update (lines u) i ⟨x, (u.writtenBack i).sectors x, true, false⟩ := by
      rw [lines_setCell]
      rfl
    refine ⟨i, _, he, ?_, ?_, ?_, fun {y P} hs => ?_⟩
    · rw [hl, update_self]
      exact ⟨rfl, rfl⟩
    · rw [hl]
      exact hu.unique.load hn rfl
    · exact clean_of_invalid_setCell (s := { u with device := u.writtenBack i }) hu.clean_of_invalid fun _ => rfl
    · obtain ⟨hb, hi⟩ := hu.shows_writtenBack i (hc.shows (s := { s with cacheMiss := s.cacheMiss + 1 }) hs)
      rw [Shows, hl]
      exact hb.load hi hn

lemma write_shown (h : Orderly s) (hx : s.device.Contains x) {off : ℕ} {buf : List UInt8}
    (hn : off + buf.length ≤ blockSectorSize) {P Q : Sector → Prop} (hp : s.Shows x P)
    (hpq : ∀ v, P v → Q (v.patch off buf)) :
    Returns (cacheWrite x off buf) s fun _ t => t.Shows x Q ∧ Orderly t ∧
      ∀ {y R}, y ≠ x → s.Shows y R → t.Shows y R := by
  have hstep : Returns (cacheWrite x off buf) s fun _ t => t.Shows x Q ∧ UniqueLines (lines t) ∧
      (∀ j, (t.cache j).valid = false → (t.cache j).dirty = false) ∧
      ∀ {y R}, y ≠ x → s.Shows y R → t.Shows y R := by
    refine (fetch_brought h hx).bind fun i t hb => ?_
    let c : CacheCell := { t.cache i with
      blockData := (t.cache i).blockData.patch off buf
      dirty := true
      numUsing := (t.cache i).numUsing - 1
      recentlyAccessed := true }
    have hc : lines (setCell i c t) =
        update (lines t) i { lines t i with value := (t.cache i).blockData.patch off buf, dirty := true } := by
      rw [lines_setCell]
      rfl
    have hv : (t.cache i).valid = true := hb.holds.1
    refine ⟨(), setCell i c t, ?_, ?_, ?_, ?_, fun {y R} hy hs => ?_⟩
    · rw [if_neg (by omega)]
      rfl
    · rw [Shows, hc]
      exact (hb.shows hp).store hb.unique hb.holds (hpq _)
    · rw [hc]
      exact hb.unique.store i _
    · exact clean_of_invalid_setCell hb.clean_of_invalid fun hf => absurd (hv.symm.trans hf) (by decide)
    · rw [Shows, hc]
      exact (hb.shows hs).store_of_ne hb.holds hy _
  refine ((write_through h.toUsable hx hn).and hstep).mono ?_
  rintro _ t ⟨ht, hq, hu, hi, hr⟩
  exact ⟨hq, ⟨ht.usable, hu, hi⟩, hr⟩

lemma write_preserves (h : Usable s) (hx : s.device.Contains x) {off : ℕ} {buf : List UInt8}
    (hn : off + buf.length ≤ blockSectorSize) :
    Returns (cacheWrite x off buf) s fun _ t => Through s x t ∧ Preserves (· = x) s t := by
  by_cases ho : Orderly s
  · refine ((write_through h hx hn).and
      (write_shown ho hx hn (Q := fun _ => True) (Lib.Shows.trivial _ _ x) fun _ _ => True.intro)).mono ?_
    rintro _ t ⟨ht, -, hot, hs⟩
    exact ⟨ht, fun _ => hot, fun _ _ _ => hs⟩
  · exact (write_through h hx hn).mono fun _ t ht =>
      ⟨ht, fun hs => absurd hs ho, fun hs => absurd hs ho⟩

lemma Preserves.device (s : CachedDisk) (x : BlockSector) (v : Sector) :
    Preserves (· = x) s { s with device := { s.device with sectors := update s.device.sectors x v } } :=
  ⟨fun hs => ⟨⟨hs.idle, hs.backed⟩, hs.unique, hs.clean_of_invalid⟩,
    fun _ _ _ hy hp => hp.congr_mem (update_of_ne hy _ _)⟩

end CourseArchive.PintOS.CachedDisk
