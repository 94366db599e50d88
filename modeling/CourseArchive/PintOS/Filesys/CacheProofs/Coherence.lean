import CourseArchive.Lib.WriteBack
import CourseArchive.PintOS.Filesys.CacheProofs.Eviction

/-! Every cache operation keeps the cells and the device standing for one flat array of sectors. -/

namespace CourseArchive.PintOS.CachedDisk

open Lib Function

def line (c : CacheCell) : Line BlockSector Sector := ⟨c.sectorIdx, c.blockData, c.valid, c.dirty⟩

def lines (s : CachedDisk) : Fin cacheSize → Line BlockSector Sector := line ∘ s.cache

def Held (s : CachedDisk) (x : BlockSector) : Prop := ∃ i, (lines s i).Holds x

structure Coherent (s : CachedDisk) (flat : BlockSector → Sector) : Prop where
  repr : Represents s.device.sectors (lines s) flat
  clean_of_invalid : ∀ i, (s.cache i).valid = false → (s.cache i).dirty = false
  contained : ∀ {x}, Held s x → s.device.Contains x

def Idle (s : CachedDisk) : Prop := ∀ i, (s.cache i).numUsing = 0

@[simp] lemma lines_setCell (i : Fin cacheSize) (c : CacheCell) (s : CachedDisk) :
    lines (setCell i c s) = update (lines s) i (line c) := by
  rw [lines, setCell, put_eq_update]
  exact comp_update line s.cache i c

@[simp] lemma device_setCell (i : Fin cacheSize) (c : CacheCell) (s : CachedDisk) :
    (setCell i c s).device = s.device := rfl

lemma line_core (c : CacheCell) : line (core c) = line c := rfl

lemma FlagsCleared.lines_eq {s t : CachedDisk} (h : FlagsCleared s t) : lines t = lines s := by
  funext i
  change line (t.cache i) = line (s.cache i)
  rw [← line_core, h.core_eq, line_core]

lemma FlagsCleared.dirty_eq {s t : CachedDisk} (h : FlagsCleared s t) (i : Fin cacheSize) :
    (t.cache i).dirty = (s.cache i).dirty :=
  congrArg Line.dirty (congrFun h.lines_eq i)

lemma FlagsCleared.coherent {s t : CachedDisk} {flat : BlockSector → Sector} (h : FlagsCleared s t)
    (hs : Coherent s flat) : Coherent t flat where
  repr := by rw [h.device, h.lines_eq]; exact hs.repr
  clean_of_invalid i hi := by
    rw [h.dirty_eq]
    exact hs.clean_of_invalid i (by rw [← h.valid_eq, hi])
  contained {x} hx := by
    rw [h.device]
    exact hs.contained (by simpa only [Held, h.lines_eq] using hx)

lemma findCell_some {s : CachedDisk} {x : BlockSector} {i : Fin cacheSize} (h : s.findCell x = some i) :
    (lines s i).Holds x := by
  have hp := List.find?_some h
  simp only [Bool.decide_and, Bool.and_eq_true, decide_eq_true_eq, Bool.decide_eq_true] at hp
  exact ⟨hp.2, hp.1⟩

lemma findCell_none {s : CachedDisk} {x : BlockSector} (h : s.findCell x = none) : ¬ Held s x := by
  rintro ⟨i, hv, hx⟩
  have hp := List.find?_eq_none.mp h i (List.mem_finRange i)
  simp only [Bool.decide_and, Bool.and_eq_true, decide_eq_true_eq, Bool.decide_eq_true] at hp
  exact hp ⟨hx, hv⟩

lemma onDevice_ok {α : Type} {m : Comp Device Fault α} {s : CachedDisk} {a : α} {d : Device}
    (h : m s.device = .ok (a, d)) : onDevice m s = .ok (a, { s with device := d }) := by
  simp [onDevice, h]

def writtenBack (s : CachedDisk) (i : Fin cacheSize) : Device :=
  if (s.cache i).dirty = true then
    { s.device with sectors := update s.device.sectors (s.cache i).sectorIdx (s.cache i).blockData }
  else s.device

@[simp] lemma writtenBack_size (s : CachedDisk) (i : Fin cacheSize) : (s.writtenBack i).size = s.device.size := by
  rw [writtenBack]
  split <;> rfl

def Backed (s : CachedDisk) : Prop := ∀ i, (s.cache i).dirty = true → s.device.Contains (s.cache i).sectorIdx

lemma Coherent.backed {s : CachedDisk} {flat : BlockSector → Sector} (h : Coherent s flat) : Backed s := by
  intro i hd
  have hv : (s.cache i).valid = true := by
    by_contra hv
    rw [h.clean_of_invalid i (by simpa using hv)] at hd
    cases hd
  exact h.contained ⟨i, hv, rfl⟩

lemma Backed.writeBack {s : CachedDisk} (h : Backed s) (i : Fin cacheSize)
    (f : Unit → Comp CachedDisk Fault (Fin cacheSize)) :
    (if (s.cache i).dirty = true then do
        onDevice (Device.blockWrite (s.cache i).sectorIdx (s.cache i).blockData)
        f ()
      else f ()) s = f () { s with device := s.writtenBack i } := by
  by_cases hd : (s.cache i).dirty = true
  · rw [if_pos hd, bind_ok (onDevice_ok (Device.blockWrite_ok (s.cache i).blockData (h i hd))), writtenBack,
      if_pos hd]
  · rw [if_neg hd, writtenBack, if_neg hd]

lemma Coherent.writtenBack {s : CachedDisk} {flat : BlockSector → Sector} (h : Coherent s flat)
    (i : Fin cacheSize) : Coherent { s with device := s.writtenBack i } flat ∧
      ∀ x, (lines s i).Holds x → (s.writtenBack i).sectors x = flat x := by
  by_cases hd : (s.cache i).dirty = true
  · have hv : (s.cache i).valid = true := by
      by_contra hv
      rw [h.clean_of_invalid i (by simpa using hv)] at hd
      cases hd
    have hi : (lines s i).Holds (s.cache i).sectorIdx := ⟨hv, rfl⟩
    rw [CachedDisk.writtenBack, if_pos hd]
    refine ⟨⟨h.repr.write_back hi, h.clean_of_invalid, fun hx => h.contained hx⟩, ?_⟩
    rintro x ⟨_, rfl⟩
    change update s.device.sectors (s.cache i).sectorIdx (s.cache i).blockData (s.cache i).sectorIdx = _
    rw [update_self]
    exact h.repr.held hi
  · rw [CachedDisk.writtenBack, if_neg hd]
    rw [Bool.not_eq_true] at hd
    exact ⟨h, fun x hx => h.repr.clean hx hd⟩

def UsedOnce (s : CachedDisk) (i : Fin cacheSize) : Prop :=
  ∀ j, (s.cache j).numUsing = if j = i then 1 else 0

structure Fetched (s : CachedDisk) (flat : BlockSector → Sector) (x : BlockSector) (i : Fin cacheSize)
    (t : CachedDisk) : Prop where
  coherent : Coherent t flat
  holds : (lines t i).Holds x
  used : UsedOnce t i
  size : t.device.size = s.device.size
  held : ∀ {y}, Held t y → Held s y ∨ y = x

def taken (s : CachedDisk) (i : Fin cacheSize) : CacheCell :=
  { s.cache i with recentlyAccessed := true, numUsing := (s.cache i).numUsing + 1 }

def loaded (s : CachedDisk) (i : Fin cacheSize) (x : BlockSector) : CacheCell where
  blockData := (s.writtenBack i).sectors x
  sectorIdx := x
  dirty := false
  recentlyAccessed := true
  valid := true
  numUsing := 1

lemma fetch_steps {s : CachedDisk} (h : Backed s) (hi : Idle s) {x : BlockSector} (hx : s.device.Contains x) :
    (∃ i, s.findCell x = some i ∧
      cacheFetch x s = .ok (i, setCell i (s.taken i) { s with cacheHit := s.cacheHit + 1 })) ∨
    s.findCell x = none ∧ ∃ i u, FlagsCleared { s with cacheMiss := s.cacheMiss + 1 } u ∧
      cacheFetch x s = .ok (i, setCell i (u.loaded i x) { u with device := u.writtenBack i }) := by
  cases hf : s.findCell x with
  | some i =>
    refine Or.inl ⟨i, rfl, ?_⟩
    simp only [cacheFetch, cacheSearch, bind_assoc_run, bind_get, hf, bind_modify, bind_pure_run, pure_run]
    rfl
  | none =>
    obtain ⟨i, u, he, hc, -⟩ := evict_unpinned { s with cacheMiss := s.cacheMiss + 1 } (fun i => Or.inr (hi i).le)
    refine Or.inr ⟨rfl, i, u, hc, ?_⟩
    have hu : Backed u := by
      intro j hj
      have hl := congrFun hc.lines_eq j
      have hd : (s.cache j).dirty = true := by rwa [hc.dirty_eq j] at hj
      have hs : (u.cache j).sectorIdx = (s.cache j).sectorIdx := congrArg Line.key hl
      rw [hs, Device.Contains, hc.device]
      exact h j hd
    have hxd : (u.writtenBack i).Contains x := by
      rw [Device.Contains, writtenBack_size, hc.device]
      exact hx
    simp only [cacheFetch, cacheSearch, bind_assoc_run, bind_get, hf, bind_modify, bind_pure_run]
    rw [bind_ok he, bind_get]
    refine (hu.writeBack i fun _ => do
      modify (setCell i { u.cache i with
        valid := true, dirty := false, sectorIdx := x, recentlyAccessed := true, numUsing := 1 })
      let data ← onDevice (Device.blockRead x)
      modify fun s => setCell i { s.cache i with blockData := data } s
      return i).trans ?_
    rw [bind_modify, bind_ok (onDevice_ok (s := setCell i { u.cache i with
      valid := true, dirty := false, sectorIdx := x, recentlyAccessed := true, numUsing := 1 }
      { u with device := u.writtenBack i }) (Device.blockRead_ok hxd))]
    simp [bind_modify, pure_run, setCell, put_eq_update, loaded]

lemma fetch_returns {s : CachedDisk} {flat : BlockSector → Sector} (h : Coherent s flat) (hi : Idle s)
    {x : BlockSector} (hx : s.device.Contains x) :
    Returns (cacheFetch x) s (Fetched s flat x) := by
  rcases fetch_steps h.backed hi hx with ⟨i, hf, he⟩ | ⟨hf, i, u, hc, he⟩
  · have hh := findCell_some hf
    refine ⟨i, _, he, ?_⟩
    have hl : lines (setCell i (s.taken i) { s with cacheHit := s.cacheHit + 1 }) = lines s := by
      rw [lines_setCell]
      exact update_eq_self i (lines s)
    refine ⟨⟨?_, ?_, ?_⟩, ?_, ?_, rfl, ?_⟩
    · rw [hl]; exact h.repr
    · intro j hj
      by_cases he : j = i
      · subst he
        simp only [setCell, put_eq_update, update_self] at hj ⊢
        exact h.clean_of_invalid j hj
      · simp only [setCell, put_eq_update, update_of_ne he] at hj ⊢
        exact h.clean_of_invalid j hj
    · intro y hy
      exact h.contained (by simpa only [Held, hl] using hy)
    · rw [hl]; exact hh
    · intro j
      by_cases he : j = i
      · subst he; simp [setCell, put_eq_update, taken, hi j]
      · simp [setCell, put_eq_update, he, hi j]
    · intro y hy
      exact Or.inl (by simpa only [Held, hl] using hy)
  · have hn := findCell_none hf
    have hcu : Coherent u flat :=
      hc.coherent (s := { s with cacheMiss := s.cacheMiss + 1 }) ⟨h.repr, h.clean_of_invalid, h.contained⟩
    have hlu : lines u = lines s := hc.lines_eq
    have hdu : u.device = s.device := hc.device
    obtain ⟨hcd, hsettled⟩ := hcu.writtenBack i
    let t : CachedDisk := setCell i (u.loaded i x) { u with device := u.writtenBack i }
    have hlt : lines t = update (lines s) i ⟨x, (u.writtenBack i).sectors x, true, false⟩ := by
      simp only [t, lines_setCell, line, loaded]
      congr 1
    have hnu : ∀ j, ¬ (lines s j).Holds x := fun j hj => hn ⟨j, hj⟩
    have hother : ∀ {j y}, j ≠ i → (lines t j).Holds y → (lines s j).Holds y := by
      intro j y hj hy
      rwa [hlt, update_of_ne hj] at hy
    have hheld : ∀ {y}, Held t y → Held s y ∨ y = x := by
      rintro y ⟨j, hj⟩
      by_cases hji : j = i
      · subst hji
        rw [hlt, update_self] at hj
        exact Or.inr hj.2.symm
      · exact Or.inl ⟨j, hother hji hj⟩
    refine ⟨i, t, he, ⟨?_, ?_, ?_⟩, ?_, ?_, ?_, hheld⟩
    · rw [hlt, ← hlu]
      exact hcd.repr.load (fun k hk => hsettled k hk) (by rw [← hlu] at hnu; exact hnu)
    · intro j hj
      by_cases hji : j = i
      · subst hji; simp [t, setCell, put_eq_update, loaded] at hj
      · simp only [t, setCell, put_eq_update, update_of_ne hji] at hj ⊢
        exact hcu.clean_of_invalid j hj
    · intro y hy
      change (u.writtenBack i).Contains y
      rw [Device.Contains, writtenBack_size, hdu]
      rcases hheld hy with hy | rfl
      · exact h.contained hy
      · exact hx
    · rw [hlt, update_self]
      exact ⟨rfl, rfl⟩
    · intro j
      by_cases hji : j = i
      · subst hji; simp [t, setCell, put_eq_update, loaded]
      · have hj := hc.numUsing_eq j
        simp only [t, setCell, put_eq_update, update_of_ne hji, if_neg hji]
        exact hj.trans (hi j)
    · change (u.writtenBack i).size = _
      rw [writtenBack_size, hdu]

end CourseArchive.PintOS.CachedDisk
