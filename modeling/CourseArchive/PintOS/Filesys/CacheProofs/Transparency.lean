import CourseArchive.PintOS.Filesys.CacheProofs.Coherence

/-! The buffer cache is transparent: any run of its calls behaves like the same run on an uncached array. -/

namespace CourseArchive.PintOS.CachedDisk

open Lib Function

structure Settled (s : CachedDisk) (flat : BlockSector → Sector) (x : BlockSector) (t : CachedDisk) :
    Prop where
  coherent : Coherent t flat
  idle : Idle t
  size : t.device.size = s.device.size
  held : ∀ {y}, Held t y → Held s y ∨ y = x

lemma UsedOnce.release {t : CachedDisk} {i : Fin cacheSize} (h : UsedOnce t i) (c : CacheCell)
    (hc : c.numUsing = (t.cache i).numUsing - 1) : Idle (setCell i c t) := by
  intro j
  by_cases hj : j = i
  · subst hj; simp [setCell, put_eq_update, hc, h j]
  · simp [setCell, put_eq_update, hj, h j]

lemma read_returns {s : CachedDisk} {flat : BlockSector → Sector} (h : Coherent s flat) (hi : Idle s)
    {x : BlockSector} (hx : s.device.Contains x) {off n : ℕ} (hn : off + n ≤ blockSectorSize) :
    Returns (cacheRead x off n) s fun bs t => bs = (flat x).slice off n ∧ Settled s flat x t := by
  refine (fetch_returns h hi hx).bind fun i t ht => ?_
  let u := setCell i { t.cache i with numUsing := (t.cache i).numUsing - 1, recentlyAccessed := true } t
  have hl : lines u = lines t := by
    simp only [u, lines_setCell]
    exact update_eq_self i (lines t)
  refine ⟨(t.cache i).blockData.slice off n, u, ?_, ?_, ⟨?_, ?_, ?_⟩, ?_, ht.size, ?_⟩
  · rw [if_neg (by omega)]
    rfl
  · rw [← ht.coherent.repr.held ht.holds]
    rfl
  · rw [hl]; exact ht.coherent.repr
  · intro j hj
    by_cases he : j = i
    · subst he
      simp only [u, setCell, put_eq_update, update_self] at hj ⊢
      exact ht.coherent.clean_of_invalid j hj
    · simp only [u, setCell, put_eq_update, update_of_ne he] at hj ⊢
      exact ht.coherent.clean_of_invalid j hj
  · intro y hy
    exact ht.coherent.contained (by simpa only [Held, hl] using hy)
  · exact ht.used.release _ rfl
  · intro y hy
    exact ht.held (by simpa only [Held, hl] using hy)

lemma write_returns {s : CachedDisk} {flat : BlockSector → Sector} (h : Coherent s flat) (hi : Idle s)
    {x : BlockSector} (hx : s.device.Contains x) {off : ℕ} {buf : List UInt8}
    (hn : off + buf.length ≤ blockSectorSize) :
    Returns (cacheWrite x off buf) s fun _ t =>
      Settled s (update flat x ((flat x).patch off buf)) x t := by
  refine (fetch_returns h hi hx).bind fun i t ht => ?_
  let c : CacheCell := { t.cache i with
    blockData := (t.cache i).blockData.patch off buf
    dirty := true
    numUsing := (t.cache i).numUsing - 1
    recentlyAccessed := true }
  have hd : (t.cache i).blockData = flat x := ht.coherent.repr.held ht.holds
  have hl : lines (setCell i c t) =
      update (lines t) i { lines t i with value := (flat x).patch off buf, dirty := true } := by
    simp only [lines_setCell, ← hd]
    rfl
  have hsame : ∀ {j y}, (lines (setCell i c t) j).Holds y ↔ (lines t j).Holds y := by
    intro j y
    by_cases he : j = i
    · subst he; simp [hl, Line.Holds]
    · rw [hl, update_of_ne he]
  have hheld : ∀ {y}, Held (setCell i c t) y → Held t y := fun h => h.imp fun j => hsame.mp
  refine ⟨(), setCell i c t, ?_, ⟨?_, ?_, ?_⟩, ?_, ht.size, fun hy => ht.held (hheld hy)⟩
  · rw [if_neg (by omega)]
    rfl
  · rw [hl]
    exact ht.coherent.repr.store ht.holds _
  · intro j hj
    by_cases he : j = i
    · subst he
      have hv : (t.cache j).valid = true := ht.holds.1
      simp [setCell, put_eq_update, c, hv] at hj
    · simp only [setCell, put_eq_update, update_of_ne he] at hj ⊢
      exact ht.coherent.clean_of_invalid j hj
  · exact fun hy => ht.coherent.contained (hheld hy)
  · exact ht.used.release c rfl

structure Flushed (s : CachedDisk) (flat : BlockSector → Sector) (is : List (Fin cacheSize))
    (t : CachedDisk) : Prop where
  coherent : Coherent t flat
  idle : Idle t
  size : t.device.size = s.device.size
  held : ∀ {y}, Held t y → Held s y
  clean : ∀ i ∈ is, (t.cache i).dirty = false
  stays : ∀ i, (s.cache i).dirty = false → (t.cache i).dirty = false

lemma flushCell_returns {s : CachedDisk} {flat : BlockSector → Sector} (h : Coherent s flat) (hi : Idle s)
    (i : Fin cacheSize) : Returns (flushCell i) s fun _ t => Flushed s flat [i] t := by
  by_cases hc : (s.cache i).valid = true ∧ (s.cache i).dirty = true
  · have hh : (lines s i).Holds (s.cache i).sectorIdx := ⟨hc.1, rfl⟩
    have hw := Device.blockWrite_ok (s.cache i).blockData (h.contained ⟨i, hh⟩)
    let d : Device := { s.device with
      sectors := update s.device.sectors (s.cache i).sectorIdx (s.cache i).blockData }
    let t := setCell i { s.cache i with dirty := false, valid := false } { s with device := d }
    have hl : lines t = update (lines s) i
        { lines s i with valid := (lines s i).valid && false, dirty := false } := by
      simp only [t, lines_setCell, Bool.and_false]
      rfl
    have hm : ∀ k, (lines s i).Holds k → d.sectors k = flat k := by
      rintro k ⟨_, rfl⟩
      change update s.device.sectors (s.cache i).sectorIdx (s.cache i).blockData (s.cache i).sectorIdx = _
      rw [update_self]
      exact h.repr.held hh
    have hheld : ∀ {y}, Held t y → Held s y := by
      rintro y ⟨j, hj⟩
      by_cases he : j = i
      · subst he; simp [hl, Line.Holds] at hj
      · rw [hl, update_of_ne he] at hj
        exact ⟨j, hj⟩
    have hdirty : ∀ j, (t.cache j).dirty = if j = i then false else (s.cache j).dirty := by
      intro j
      by_cases he : j = i
      · subst he; simp [t, setCell, put_eq_update]
      · simp [t, setCell, put_eq_update, he]
    refine ⟨(), t, ?_, ⟨?_, ?_, fun hy => h.contained (hheld hy)⟩, ?_, rfl, hheld, ?_, ?_⟩
    · simp only [flushCell, bind_get, if_pos hc]
      rw [bind_ok (onDevice_ok hw), modify_run]
    · rw [hl]
      exact (h.repr.write_back hh).settle hm false
    · intro j hj
      rw [hdirty]
      split
      · rfl
      · next he =>
        apply h.clean_of_invalid
        simpa [t, setCell, put_eq_update, update_of_ne he] using hj
    · intro j
      by_cases he : j = i
      · subst he; simpa [t, setCell, put_eq_update] using hi j
      · simpa [t, setCell, put_eq_update, update_of_ne he] using hi j
    · simp [hdirty]
    · intro j hj
      simp [hdirty, hj]
  · refine ⟨(), s, ?_, h, hi, rfl, id, ?_, fun _ => id⟩
    · simp only [flushCell, bind_get, if_neg hc, pure_run]
    · intro j hj
      obtain rfl := List.mem_singleton.mp hj
      by_contra hd
      rw [Bool.not_eq_false] at hd
      refine hc ⟨?_, hd⟩
      by_contra hv
      rw [h.clean_of_invalid j (by simpa using hv)] at hd
      cases hd

lemma flushCells_returns (is : List (Fin cacheSize)) {s : CachedDisk} {flat : BlockSector → Sector}
    (h : Coherent s flat) (hi : Idle s) : Returns (flushCells is) s fun _ t => Flushed s flat is t := by
  induction is generalizing s with
  | nil => exact ⟨(), s, rfl, h, hi, rfl, id, by simp, fun _ => id⟩
  | cons i is ih =>
    refine (flushCell_returns h hi i).bind fun _ t ht => ?_
    refine (ih ht.coherent ht.idle).mono fun _ u hu => ?_
    refine ⟨hu.coherent, hu.idle, hu.size.trans ht.size, fun hy => ht.held (hu.held hy), ?_,
      fun j hj => hu.stays j (ht.stays j hj)⟩
    intro j hj
    rcases List.mem_cons.mp hj with rfl | hj
    · exact hu.stays j (ht.clean j (by simp))
    · exact hu.clean j hj

lemma flush_returns {s : CachedDisk} {flat : BlockSector → Sector} (h : Coherent s flat) (hi : Idle s) :
    Returns cacheFlush s fun _ t => Flushed s flat (List.finRange cacheSize) t ∧ t.device.sectors = flat := by
  refine (flushCells_returns _ h hi).mono fun _ t ht => ⟨ht, ?_⟩
  exact ht.coherent.repr.mem_eq fun i _ _ => ht.clean i (List.mem_finRange i)

lemma init_coherent (s : CachedDisk) : Coherent (cacheInit s) s.device.sectors := by
  have hn : ∀ i x, ¬ (lines (cacheInit s) i).Holds x := by
    rintro i x ⟨hv, -⟩
    cases hv
  refine ⟨⟨fun hi _ => (hn _ _ hi).elim, fun hi => (hn _ _ hi).elim, fun _ => rfl,
    fun hi _ => (hn _ _ hi).elim⟩, fun _ _ => rfl, ?_⟩
  rintro x ⟨i, hi⟩
  exact (hn i x hi).elim

lemma init_idle (s : CachedDisk) : Idle (cacheInit s) := fun _ => rfl

end CachedDisk

open CachedDisk Lib Function

inductive CacheCall
  | read (sectorIdx : BlockSector) (offset size : ℕ)
  | write (sectorIdx : BlockSector) (offset : ℕ) (buffer : List UInt8)
  | flush
  deriving DecidableEq

namespace CacheCall

def Fits (d : Device) : CacheCall → Prop
  | read x offset size => d.Contains x ∧ offset + size ≤ blockSectorSize
  | write x offset buffer => d.Contains x ∧ offset + buffer.length ≤ blockSectorSize
  | flush => True

instance (d : Device) : (c : CacheCall) → Decidable (c.Fits d)
  | read .. => inferInstanceAs (Decidable (_ ∧ _))
  | write .. => inferInstanceAs (Decidable (_ ∧ _))
  | flush => inferInstanceAs (Decidable True)

def run : CacheCall → Comp CachedDisk Fault (List UInt8)
  | read x offset size => cacheRead x offset size
  | write x offset buffer => do
    cacheWrite x offset buffer
    return []
  | flush => do
    cacheFlush
    return []

def plainOutput (flat : BlockSector → Sector) : CacheCall → List UInt8
  | read x offset size => (flat x).slice offset size
  | write .. | flush => []

def plainEffect (flat : BlockSector → Sector) : CacheCall → BlockSector → Sector
  | write x offset buffer => update flat x ((flat x).patch offset buffer)
  | read .. | flush => flat

end CacheCall

def runCalls : List CacheCall → Comp CachedDisk Fault (List (List UInt8))
  | [] => return []
  | c :: cs => do
    let out ← c.run
    let outs ← runCalls cs
    return out :: outs

def plainCalls (flat : BlockSector → Sector) : List CacheCall → List (List UInt8) × (BlockSector → Sector)
  | [] => ([], flat)
  | c :: cs =>
    let rest := plainCalls (c.plainEffect flat) cs
    (c.plainOutput flat :: rest.1, rest.2)

lemma CacheCall.run_returns {s : CachedDisk} {flat : BlockSector → Sector} (h : Coherent s flat)
    (hi : Idle s) {c : CacheCall} (hc : c.Fits s.device) :
    Returns c.run s fun out t => out = c.plainOutput flat ∧ Coherent t (c.plainEffect flat) ∧ Idle t ∧
      t.device.size = s.device.size ∧ (c = .flush → t.device.sectors = flat) := by
  cases c with
  | read x offset size =>
    refine (read_returns h hi hc.1 hc.2).mono ?_
    rintro out t ⟨ho, ht⟩
    exact ⟨ho, ht.coherent, ht.idle, ht.size, nofun⟩
  | write x offset buffer =>
    refine (write_returns h hi hc.1 hc.2).bind fun _ t ht => Returns.pure ?_
    exact ⟨rfl, ht.coherent, ht.idle, ht.size, nofun⟩
  | flush =>
    refine (flush_returns h hi).bind fun _ t ht => Returns.pure ?_
    exact ⟨rfl, ht.1.coherent, ht.1.idle, ht.1.size, fun _ => ht.2⟩

lemma runCalls_returns (calls : List CacheCall) {s : CachedDisk} {flat : BlockSector → Sector}
    (h : Coherent s flat) (hi : Idle s) (hc : ∀ c ∈ calls, c.Fits s.device) :
    Returns (runCalls calls) s fun outs t => outs = (plainCalls flat calls).1 ∧
      Coherent t (plainCalls flat calls).2 ∧ (calls = [] → t = s) ∧
      (calls.getLast? = some .flush → t.device.sectors = (plainCalls flat calls).2) := by
  induction calls generalizing s flat with
  | nil => exact Returns.pure ⟨rfl, h, fun _ => rfl, by simp⟩
  | cons c cs ih =>
    refine (c.run_returns h hi (hc c (by simp))).bind ?_
    rintro out t ⟨rfl, ht, hti, hsize, hflush⟩
    have hfits : ∀ c ∈ cs, c.Fits t.device := by
      intro c' hc'
      have hh := hc c' (by simp [hc'])
      cases c' <;> simp only [CacheCall.Fits, Device.Contains, hsize] at hh ⊢ <;> exact hh
    refine (ih ht hti hfits).bind ?_
    rintro outs u ⟨rfl, hu, hnil, hlast⟩
    refine Returns.pure ⟨rfl, hu, by simp, ?_⟩
    intro he
    cases cs with
    | nil =>
      obtain rfl : c = .flush := by simpa using he
      rw [hnil rfl]
      exact hflush rfl
    | cons c' cs => exact hlast (by simpa using he)

/-- Any run of cache calls from `cache_init` hands out the bytes of an uncached array under the same calls,
keeps one valid cell per sector and clean cells equal to the device, and leaves the device equal to that array
whenever it ends in a flush. -/
theorem cache_transparent (s : CachedDisk) (calls : List CacheCall) (hc : ∀ c ∈ calls, c.Fits s.device) :
    ∃ outs t, runCalls calls (cacheInit s) = .ok (outs, t) ∧
      outs = (plainCalls s.device.sectors calls).1 ∧
      (∀ i j, (t.cache i).valid = true → (t.cache j).valid = true →
        (t.cache i).sectorIdx = (t.cache j).sectorIdx → i = j) ∧
      (∀ i, (t.cache i).valid = true → (t.cache i).dirty = false →
        (t.cache i).blockData = t.device.sectors (t.cache i).sectorIdx) ∧
      (calls.getLast? = some .flush → t.device.sectors = (plainCalls s.device.sectors calls).2) := by
  obtain ⟨outs, t, hr, ho, ht, -, hlast⟩ := runCalls_returns calls (init_coherent s) (init_idle s) hc
  refine ⟨outs, t, hr, ho, ?_, ?_, hlast⟩
  · intro i j hi hj he
    exact ht.repr.unique (k := (t.cache i).sectorIdx) ⟨hi, rfl⟩ ⟨hj, he.symm⟩
  · intro i hi hd
    have hh : (lines t i).Holds (t.cache i).sectorIdx := ⟨hi, rfl⟩
    exact (ht.repr.held hh).trans (ht.repr.clean hh hd).symm

def smallDisk : CachedDisk where
  device := ⟨4, fun x => Block.ofBytes fun i => x.toUInt8 + UInt8.ofNat i⟩
  cache := fun _ => ⟨Block.ofBytes fun _ => 0xcc, 0, false, false, false, 0⟩
  clockIdx := 0
  cacheHit := 0
  cacheMiss := 0

def smallCalls : List CacheCall := [.write 2 510 [7, 8], .write 3 0 [], .read 2 509 3, .flush]

theorem cache_transparent_small :
    ∃ outs t, runCalls smallCalls (cacheInit smallDisk) = .ok (outs, t) ∧ outs = [[], [], [255, 7, 8], []] ∧
      t.device.sectors = (plainCalls smallDisk.device.sectors smallCalls).2 := by
  obtain ⟨outs, t, hr, ho, -, -, hlast⟩ := cache_transparent smallDisk smallCalls (by decide)
  exact ⟨outs, t, hr, ho.trans (by decide), hlast rfl⟩

end CourseArchive.PintOS
