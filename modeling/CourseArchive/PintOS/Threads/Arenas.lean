import CourseArchive.PintOS.Threads.Malloc

/-! What the page groups of the allocators are divided into, and what each step of `malloc` and `free` keeps. -/

namespace CourseArchive.PintOS.Threads

open Lib

inductive Use
  | small (d : ℕ)
  | big
  | client
  deriving DecidableEq

structure Chunk where
  pool : PoolName
  extent : Extent
  use : Use
  deriving DecidableEq

structure Holding where
  addr : ℕ
  data : List UInt8
  pages : Bool

namespace Holding

def extent (h : Holding) : Extent := ⟨h.addr, h.data.length⟩

end Holding

lemma desc_spec {d : ℕ} (hd : d < descs.length) :
    0 < (desc d).blocksPerArena ∧ 0 < (desc d).blockSize ∧ (desc d).blockSize ∣ wordSize ∧
      arenaSize + (desc d).blocksPerArena * (desc d).blockSize ≤ pgSize := by
  have hlen : descs.length = 7 := by decide
  rw [hlen] at hd
  interval_cases d <;> decide

namespace Chunk

variable (L : Layout) (u : Chunk)

def addr : ℕ := L.page u.pool u.extent.start

def region : Extent := L.region u.pool u.extent

def headerSize : ℕ := if u.use = .client then 0 else arenaSize

def header : Extent := ⟨u.addr L, u.headerSize⟩

def blocks : List ℕ :=
  match u.use with
  | .small d => (List.range (desc d).blocksPerArena).map (Heap.blockAt (u.addr L) d)
  | .big => [u.addr L + arenaSize]
  | .client => [u.addr L]

def roomSize : ℕ :=
  match u.use with
  | .small d => (desc d).blockSize
  | .big => pgSize * u.extent.cnt - arenaSize
  | .client => pgSize * u.extent.cnt

def room (b : ℕ) : Extent := ⟨b, u.roomSize⟩

def Fits : Prop :=
  0 < u.extent.cnt ∧ match u.use with
    | .small d => d < descs.length ∧ u.pool = .kernel ∧ u.extent.cnt = 1
    | .big => u.pool = .kernel
    | .client => True

def HasFree (s : Heap) (b : ℕ) : Prop := ∃ d, u.use = .small d ∧ b ∈ s.freeLists d

def HeaderIn (s : Heap) : Prop :=
  match u.use with
  | .small d => s.get (u.addr L) .magic = arenaMagic ∧ s.get (u.addr L) .desc = descPtr d ∧
      s.get (u.addr L) .freeCnt = (u.blocks L).countP fun b => b ∈ s.freeLists d
  | .big => s.get (u.addr L) .magic = arenaMagic ∧ s.get (u.addr L) .desc = 0 ∧
      s.get (u.addr L) .freeCnt = u.extent.cnt
  | .client => True

variable {L u} {b c : ℕ} {s s' : Heap}

lemma nodup_blocks (hu : u.Fits) : (u.blocks L).Nodup := by
  cases hd : u.use with
  | small d =>
    obtain ⟨-, hfit⟩ := hu
    simp only [hd] at hfit
    obtain ⟨-, hbs, -, -⟩ := desc_spec hfit.1
    simp only [blocks, hd]
    refine List.nodup_range.map fun i j hij => ?_
    simp only [Heap.blockAt] at hij
    exact Nat.eq_of_mul_eq_mul_right hbs (by omega)
  | big => simp [blocks, hd]
  | client => simp [blocks, hd]

lemma room_pos (hu : u.Fits) : 0 < u.roomSize := by
  obtain ⟨hcnt, hfit⟩ := hu
  cases hd : u.use with
  | small d =>
    simp only [hd] at hfit
    simpa only [roomSize, hd] using (desc_spec hfit.1).2.1
  | big =>
    simp only [roomSize, hd, pgSize, arenaSize]
    omega
  | client =>
    simp only [roomSize, hd, pgSize]
    omega

lemma room_inside (hu : u.Fits) (hb : b ∈ u.blocks L) :
    u.addr L + u.headerSize ≤ b ∧ b + u.roomSize ≤ u.addr L + pgSize * u.extent.cnt := by
  obtain ⟨hcnt, hfit⟩ := hu
  cases hd : u.use with
  | small d =>
    simp only [hd] at hfit
    obtain ⟨hdlt, -, hone⟩ := hfit
    simp only [blocks, hd, List.mem_map, List.mem_range] at hb
    obtain ⟨i, hi, rfl⟩ := hb
    have hspec := (desc_spec hdlt).2.2.2
    have hmul : (i + 1) * (desc d).blockSize ≤ (desc d).blocksPerArena * (desc d).blockSize :=
      Nat.mul_le_mul_right _ hi
    simp only [headerSize, hd, roomSize, Heap.blockAt, hone, reduceCtorEq, if_false]
    rw [Nat.succ_mul] at hmul
    omega
  | big =>
    simp only [blocks, hd, List.mem_singleton] at hb
    subst hb
    simp only [headerSize, hd, roomSize, reduceCtorEq, if_false, pgSize, arenaSize]
    omega
  | client =>
    simp only [blocks, hd, List.mem_singleton] at hb
    subst hb
    simp [headerSize, hd, roomSize]

lemma header_inside (hu : u.Fits) : u.headerSize ≤ pgSize * u.extent.cnt := by
  have hcnt := hu.1
  simp only [headerSize, pgSize, arenaSize]
  split <;> omega

lemma room_apart (hb : b ∈ u.blocks L) (hc : c ∈ u.blocks L) (hne : b ≠ c) : (u.room b).Apart (u.room c) := by
  cases hd : u.use with
  | small d =>
    simp only [blocks, hd, List.mem_map, List.mem_range] at hb hc
    obtain ⟨i, -, rfl⟩ := hb
    obtain ⟨j, -, rfl⟩ := hc
    simp only [Extent.Apart, room, roomSize, hd, Heap.blockAt]
    rcases Nat.lt_or_gt_of_ne (show i ≠ j by rintro rfl; exact hne rfl) with hlt | hlt
    · have hmul : (i + 1) * (desc d).blockSize ≤ j * (desc d).blockSize := Nat.mul_le_mul_right _ hlt
      rw [Nat.succ_mul] at hmul
      omega
    · have hmul : (j + 1) * (desc d).blockSize ≤ i * (desc d).blockSize := Nat.mul_le_mul_right _ hlt
      rw [Nat.succ_mul] at hmul
      omega
  | big =>
    simp only [blocks, hd, List.mem_singleton] at hb hc
    exact absurd (hb.trans hc.symm) hne
  | client =>
    simp only [blocks, hd, List.mem_singleton] at hb hc
    exact absurd (hb.trans hc.symm) hne

lemma pgRoundDown_block (hu : u.Fits) (hb : b ∈ u.blocks L) (hclient : u.use ≠ .client) :
    pgRoundDown b = u.addr L := by
  have ha := L.pgOfs_page u.pool u.extent.start
  have hin := room_inside hu hb
  have hpos := room_pos hu
  change pgOfs (u.addr L) = 0 at ha
  have hlt : b < u.addr L + pgSize := by
    cases hd : u.use with
    | small d =>
      have hfit := hu.2
      simp only [hd] at hfit
      rw [hfit.2.2] at hin
      omega
    | big =>
      simp only [blocks, hd, List.mem_singleton] at hb
      simp only [hb, arenaSize, pgSize]
      omega
    | client => exact absurd hd hclient
  simp only [pgRoundDown, pgOfs, pgSize] at *
  omega

lemma blockToArena_block (hu : u.Fits) (hb : b ∈ u.blocks L) (hclient : u.use ≠ .client) (hh : u.HeaderIn L s) :
    s.blockToArena b = some (u.addr L) := by
  have hround := pgRoundDown_block hu hb hclient
  have hpos : u.addr L ≠ 0 := (L.page_pos u.pool u.extent.start).ne'
  have ha := L.pgOfs_page u.pool u.extent.start
  change pgOfs (u.addr L) = 0 at ha
  cases hd : u.use with
  | small d =>
    have hin := (room_inside hu hb).2
    have hfit := hu.2
    simp only [hd] at hfit
    simp only [HeaderIn, hd] at hh
    obtain ⟨-, hbs, hdvd, hspec⟩ := desc_spec hfit.1
    simp only [roomSize, hd, hfit.2.2] at hin
    simp only [blocks, hd, List.mem_map, List.mem_range] at hb
    obtain ⟨i, -, rfl⟩ := hb
    have hofs : pgOfs (Heap.blockAt (u.addr L) d i) = arenaSize + i * (desc d).blockSize := by
      simp only [Heap.blockAt, pgOfs, pgSize, arenaSize] at *
      omega
    have hmod : (pgOfs (Heap.blockAt (u.addr L) d i) +
      wordSize - arenaSize) % wordSize % (desc d).blockSize = 0 := by
      rw [hofs, show arenaSize + i * (desc d).blockSize + wordSize - arenaSize = i *
        (desc d).blockSize + wordSize by omega,
        Nat.add_mod_right, Nat.mod_mod_of_dvd _ hdvd, Nat.mul_mod_left]
    simp only [Heap.blockToArena, hround]
    rw [if_pos]
    refine ⟨hpos, hh.1, .inr ?_, .inl ?_⟩
    · rw [hh.2.1]
      exact hmod
    · rw [hh.2.1]
      exact Nat.succ_ne_zero d
  | big =>
    simp only [HeaderIn, hd] at hh
    simp only [blocks, hd, List.mem_singleton] at hb
    simp only [Heap.blockToArena, hround]
    rw [if_pos]
    refine ⟨hpos, hh.1, .inl hh.2.1, .inr ?_⟩
    simp only [hb, pgOfs, pgSize, arenaSize] at *
    omega
  | client => exact absurd hd hclient

lemma HeaderIn.congr (hh : u.HeaderIn L s) (hget : u.use ≠ .client → ∀ f, s'.get (u.addr L) f = s.get (u.addr L) f)
    (hfree : ∀ d, u.use = .small d → ∀ b ∈ u.blocks L, b ∈ s'.freeLists d ↔ b ∈ s.freeLists d) :
    u.HeaderIn L s' := by
  cases hd : u.use with
  | small d =>
    simp only [HeaderIn, hd, hget (by simp [hd])] at hh ⊢
    refine ⟨hh.1, hh.2.1, hh.2.2.trans (List.countP_congr fun b hb => ?_)⟩
    simpa using (hfree d hd b hb).symm
  | big => simpa only [HeaderIn, hd, hget (by simp [hd])] using hh
  | client => simp only [HeaderIn, hd]

end Chunk

def extents (us : List Chunk) (name : PoolName) : List Extent :=
  (us.filter fun u => u.pool = name).map Chunk.extent

structure Placed (L : Layout) (s : Pages) (us : List Chunk) : Prop where
  owned : Owned L s (extents us)
  fits : ∀ u ∈ us, u.Fits

structure Laid (L : Layout) (s : Heap) (us : List Chunk) (hs : List Holding) :
    Prop extends Placed L s.toPages us where
  header : ∀ u ∈ us, u.HeaderIn L s
  free : ∀ d, ∀ b ∈ s.freeLists d, ∃ u ∈ us, u.use = .small d ∧ b ∈ u.blocks L
  nodup : ∀ d, (s.freeLists d).Nodup
  held : ∀ h ∈ hs, ∃ u ∈ us, h.addr ∈ u.blocks L ∧ ¬u.HasFree s h.addr ∧ 0 < h.data.length ∧
    h.data.length ≤ u.roomSize ∧
    (h.pages = true ↔ u.use = .client) ∧ (u.use = .client → h.data.length = u.roomSize)
  distinct : (hs.map Holding.addr).Nodup
  data : ∀ h ∈ hs, s.mem.bytes h.addr h.data.length = h.data

namespace Placed

variable {L : Layout} {s : Pages} {us : List Chunk} {u v : Chunk} {b c : ℕ}

lemma nodup_chunks (hl : Placed L s us) : us.Nodup := by
  refine List.nodup_iff_count_le_one.mpr fun u => ?_
  by_contra! hcount
  have hpair := (hl.owned.taken u.pool).apart
  have hsub : [u, u].Sublist (us.filter fun v => v.pool = u.pool) := by
    have hrep : (List.replicate 2 u).Sublist us := List.replicate_sublist_iff.mpr hcount
    simpa using hrep.filter fun v => v.pool = u.pool
  have hap := (hpair.sublist (hsub.map Chunk.extent))
  simp only [List.map_cons, List.map_nil, List.pairwise_cons, List.mem_singleton, forall_eq] at hap
  have hmem : u ∈ us := List.count_pos_iff.mp (by omega)
  have hpos := (hl.fits u hmem).1
  have := hap.1
  simp only [Extent.Apart] at this
  omega

lemma extent_mem (hu : u ∈ us) : u.extent ∈ extents us u.pool :=
  List.mem_map_of_mem (List.mem_filter.mpr ⟨hu, by simp⟩)

lemma inside (hl : Placed L s us) (hu : u ∈ us) : u.extent.start + u.extent.cnt ≤ L.cnt u.pool :=
  (hl.owned.taken u.pool).inside u.extent (extent_mem hu)

lemma extents_apart (hl : Placed L s us) (hu : u ∈ us) (hv : v ∈ us) (hne : u ≠ v) (hp : u.pool = v.pool) :
    u.extent.Apart v.extent := by
  have hpair := List.pairwise_map.mp (hl.owned.taken v.pool).apart
  have hsymm : Std.Symm fun a b : Chunk => a.extent.Apart b.extent := ⟨fun _ _ => Extent.Apart.symm⟩
  exact hpair.forall (List.mem_filter.mpr ⟨hu, by simp [hp]⟩) (List.mem_filter.mpr ⟨hv, by simp⟩) hne

lemma regions_apart (hl : Placed L s us) (hu : u ∈ us) (hv : v ∈ us) (hne : u ≠ v) :
    (u.region L).Apart (v.region L) := by
  have hinu := hl.inside hu
  have hinv := hl.inside hv
  have hap := L.apart
  by_cases hp : u.pool = v.pool
  · have hext := hl.extents_apart hu hv hne hp
    simp only [Extent.Apart, Chunk.region, Layout.region, Layout.page, hp, pgSize] at *
    omega
  · simp only [Extent.Apart, Chunk.region, Layout.region, Layout.page, pgSize] at *
    cases hpu : u.pool with
    | kernel =>
      cases hpv : v.pool with
      | kernel => exact absurd (hpu.trans hpv.symm) hp
      | user =>
        rw [hpu] at hinu
        omega
    | user =>
      cases hpv : v.pool with
      | user => exact absurd (hpu.trans hpv.symm) hp
      | kernel =>
        rw [hpv] at hinv
        omega

lemma rooms_apart (hl : Placed L s us) (hu : u ∈ us) (hv : v ∈ us) (hb : b ∈ u.blocks L) (hc : c ∈ v.blocks L)
    (hne : b ≠ c) : (u.room b).Apart (v.room c) := by
  rcases eq_or_ne u v with rfl | huv
  · exact Chunk.room_apart hb hc hne
  · have hap := hl.regions_apart hu hv huv
    have hinb := Chunk.room_inside (hl.fits u hu) hb
    have hinc := Chunk.room_inside (hl.fits v hv) hc
    simp only [Extent.Apart, Chunk.region, Layout.region, Chunk.room, Chunk.addr] at *
    omega

lemma chunk_of_block (hl : Placed L s us) (hu : u ∈ us) (hv : v ∈ us) (hb : b ∈ u.blocks L)
    (hb' : b ∈ v.blocks L) : u = v := by
  by_contra huv
  have hap := hl.regions_apart hu hv huv
  have hinu := Chunk.room_inside (hl.fits u hu) hb
  have hinv := Chunk.room_inside (hl.fits v hv) hb'
  have hpos := Chunk.room_pos (hl.fits u hu)
  have hpos' := Chunk.room_pos (hl.fits v hv)
  simp only [Extent.Apart, Chunk.region, Layout.region, Chunk.addr] at *
  omega

lemma header_room_apart (hl : Placed L s us) (hu : u ∈ us) (hv : v ∈ us) (hb : b ∈ v.blocks L) :
    (u.header L).Apart (v.room b) := by
  have hinv := Chunk.room_inside (hl.fits v hv) hb
  rcases eq_or_ne u v with rfl | huv
  · exact .inl hinv.1
  · have hap := hl.regions_apart hu hv huv
    have hhead := Chunk.header_inside (hl.fits u hu)
    simp only [Extent.Apart, Chunk.region, Layout.region, Chunk.header, Chunk.room, Chunk.addr] at *
    omega

lemma headers_apart (hl : Placed L s us) (hu : u ∈ us) (hv : v ∈ us) (hne : u ≠ v) :
    (u.header L).Apart (v.header L) := by
  have hap := hl.regions_apart hu hv hne
  have hheadu := Chunk.header_inside (hl.fits u hu)
  have hheadv := Chunk.header_inside (hl.fits v hv)
  simp only [Extent.Apart, Chunk.region, Layout.region, Chunk.header, Chunk.addr] at *
  omega

lemma region_header_apart (hl : Placed L s us) (hu : u ∈ us) (hv : v ∈ us) (hne : u ≠ v) :
    (u.region L).Apart (v.header L) := by
  have hap := hl.regions_apart hu hv hne
  have hheadv := Chunk.header_inside (hl.fits v hv)
  simp only [Extent.Apart, Chunk.region, Layout.region, Chunk.header, Chunk.addr] at *
  omega

lemma region_room_apart (hl : Placed L s us) (hu : u ∈ us) (hv : v ∈ us) (hne : u ≠ v) (hb : b ∈ v.blocks L) :
    (u.region L).Apart (v.room b) := by
  have hap := hl.regions_apart hu hv hne
  have hinv := Chunk.room_inside (hl.fits v hv) hb
  simp only [Extent.Apart, Chunk.region, Layout.region, Chunk.room, Chunk.addr] at *
  omega

lemma perm (hl : Placed L s us) {us' : List Chunk} (hp : us.Perm us') : Placed L s us' :=
  ⟨hl.owned.perm fun _ => (hp.filter _).map _, fun u hu => hl.fits u (hp.mem_iff.mpr hu)⟩

end Placed

namespace Laid

variable {L : Layout} {s s' : Heap} {us us' : List Chunk} {hs hs' : List Holding} {u v : Chunk} {h : Holding}
  {b c d n : ℕ}
  {rest : List ℕ}

lemma get_of_agree {a : ℕ} (hm : AgreeOn ⟨a, arenaSize⟩ s.mem s'.mem) (f : ArenaField) :
    s'.get a f = s.get a f := by
  refine hm.load (Nat.le_add_right _ _) ?_
  cases f <;> simp [ArenaField.offset, arenaSize]

lemma data_of_agree {m : Memory} (hm : AgreeOn (v.room h.addr) s.mem m) (hlen : h.data.length ≤ v.roomSize) :
    m.bytes h.addr h.data.length = s.mem.bytes h.addr h.data.length := hm.bytes le_rfl (Nat.add_le_add_left hlen _)

lemma perm (hl : Laid L s us hs) (hu : us.Perm us') (hh : hs.Perm hs') : Laid L s us' hs' where
  toPlaced := hl.toPlaced.perm hu
  header u hmem := hl.header u (hu.mem_iff.mpr hmem)
  free d b hb := by
    obtain ⟨u, hmem, hrest⟩ := hl.free d b hb
    exact ⟨u, hu.mem_iff.mp hmem, hrest⟩
  nodup := hl.nodup
  held h hmem := by
    obtain ⟨u, hmem, hrest⟩ := hl.held h (hh.mem_iff.mpr hmem)
    exact ⟨u, hu.mem_iff.mp hmem, hrest⟩
  distinct := (hh.map _).nodup_iff.mp hl.distinct
  data h hmem := hl.data h (hh.mem_iff.mpr hmem)

lemma drop (hl : Laid L s us (h :: hs)) : Laid L s us hs where
  toPlaced := hl.toPlaced
  header := hl.header
  free := hl.free
  nodup := hl.nodup
  held k hk := hl.held k (List.mem_cons_of_mem h hk)
  distinct := (List.nodup_cons.mp hl.distinct).2
  data k hk := hl.data k (List.mem_cons_of_mem h hk)

lemma not_held (hl : Laid L s us hs) (hb : b ∈ s.freeLists d) : b ∉ hs.map Holding.addr := by
  rintro hmem
  obtain ⟨h, hh, rfl⟩ := List.mem_map.mp hmem
  obtain ⟨u, hu, hd, hbu⟩ := hl.free d _ hb
  obtain ⟨v, hv, hbv, hnot, -⟩ := hl.held h hh
  obtain rfl := hl.chunk_of_block hu hv hbu hbv
  exact hnot ⟨d, hd, hb⟩

lemma hold (hl : Laid L s us hs) (hu : u ∈ us) (hb : b ∈ u.blocks L) (hfree : ¬u.HasFree s b)
    (hnew : b ∉ hs.map Holding.addr)
    (hpos : 0 < n) (hn : n ≤ u.roomSize) {pages : Bool} (hpages : pages = true ↔ u.use = .client)
    (hall : u.use = .client → n = u.roomSize) : Laid L s us (⟨b, s.mem.bytes b n, pages⟩ :: hs) where
  toPlaced := hl.toPlaced
  header := hl.header
  free := hl.free
  nodup := hl.nodup
  held := by
    refine List.forall_mem_cons.mpr ⟨⟨u, hu, hb, hfree, ?_⟩, hl.held⟩
    simpa only [Memory.length_bytes] using ⟨hpos, hn, hpages, hall⟩
  distinct := List.nodup_cons.mpr ⟨hnew, hl.distinct⟩
  data := List.forall_mem_cons.mpr ⟨by simp only [Memory.length_bytes], hl.data⟩

lemma flip (hl : Laid L s us hs) (hu : u ∈ us) (hd : u.use = .small d) (hb : b ∈ u.blocks L)
    (hbs : b ∉ hs.map Holding.addr) (hpools : s'.pools = s.pools)
    (hmem : ∀ x : Extent, (u.header L).Apart x → (u.room b).Apart x → AgreeOn x s.mem s'.mem)
    (hother : ∀ e c, c ≠ b → (c ∈ s'.freeLists e ↔ c ∈ s.freeLists e)) (hown : ∀ e, b ∈ s'.freeLists e → e = d)
    (hnodup : ∀ e, (s'.freeLists e).Nodup) (hheader : u.HeaderIn L s') : Laid L s' us hs where
  owned := ⟨fun n => hpools ▸ hl.owned.base n, fun n => hpools ▸ hl.owned.cnt n,
    fun n => hpools ▸ hl.owned.taken n⟩
  fits := hl.fits
  header v hv := by
    rcases eq_or_ne v u with rfl | hne
    · exact hheader
    · refine (hl.header v hv).congr (fun hclient f => get_of_agree ?_ f) fun e he c hc => hother e c ?_
      · have hagree := hmem (v.header L) (hl.headers_apart hu hv hne.symm) (hl.header_room_apart hv hu hb).symm
        simpa [Chunk.header, Chunk.headerSize, hclient] using hagree
      · rintro rfl
        exact hne (hl.chunk_of_block hv hu hc hb)
  free e c hc := by
    by_cases hcb : c = b
    · subst hcb
      obtain rfl := hown e hc
      exact ⟨u, hu, hd, hb⟩
    · exact hl.free e c ((hother e c hcb).mp hc)
  nodup := hnodup
  held k hk := by
    obtain ⟨v, hv, hbv, hnot, hrest⟩ := hl.held k hk
    have hne : k.addr ≠ b := fun heq => hbs (heq ▸ List.mem_map_of_mem hk)
    refine ⟨v, hv, hbv, ?_, hrest⟩
    rintro ⟨e, he, hin⟩
    exact hnot ⟨e, he, (hother e _ hne).mp hin⟩
  distinct := hl.distinct
  data k hk := by
    obtain ⟨v, hv, hbv, -, -, hlen, -⟩ := hl.held k hk
    have hne : b ≠ k.addr := fun heq => hbs (heq ▸ List.mem_map_of_mem hk)
    have hagree := hmem (v.room k.addr) (hl.header_room_apart hu hv hbv) (hl.rooms_apart hu hv hb hbv hne)
    exact (data_of_agree hagree hlen).trans (hl.data k hk)

lemma addChunk (hl : Laid L s us hs) (hp : Placed L s'.toPages (u :: us))
    (hmem : ChangedIn (u.region L) s.mem s'.mem) (hheader : u.HeaderIn L s')
    (hfree : ∀ e, s'.freeLists e = s.freeLists e ++ if u.use = .small e then u.blocks L else []) :
    Laid L s' (u :: us) hs := by
  have hnew : u ∉ us := (List.nodup_cons.mp hp.nodup_chunks).1
  have hne : ∀ v ∈ us, u ≠ v := fun v hv heq => hnew (heq ▸ hv)
  have hout : ∀ v ∈ us, ∀ c ∈ v.blocks L, c ∉ u.blocks L := fun v hv c hc hcu =>
    hne v hv (hp.chunk_of_block List.mem_cons_self (List.mem_cons_of_mem u hv) hcu hc)
  have hsame : ∀ v ∈ us, ∀ c ∈ v.blocks L, ∀ e, c ∈ s'.freeLists e ↔ c ∈ s.freeLists e := by
    intro v hv c hc e
    rw [hfree e, List.mem_append]
    refine or_iff_left fun hmem' => ?_
    split at hmem'
    · exact hout v hv c hc hmem'
    · exact List.not_mem_nil hmem'
  refine ⟨hp, List.forall_mem_cons.mpr ⟨hheader, fun v hv => ?_⟩, fun e c hc => ?_, fun e => ?_, fun k hk => ?_,
    hl.distinct, fun k hk => ?_⟩
  · refine (hl.header v hv).congr (fun hclient f => get_of_agree ?_ f) fun e _ c hc => hsame v hv c hc e
    have hagree := hmem.agree (hp.region_header_apart List.mem_cons_self (List.mem_cons_of_mem u hv) (hne v hv))
    simpa [Chunk.header, Chunk.headerSize, hclient] using hagree
  · rw [hfree e, List.mem_append] at hc
    rcases hc with hc | hc
    · obtain ⟨v, hv, hrest⟩ := hl.free e c hc
      exact ⟨v, List.mem_cons_of_mem u hv, hrest⟩
    · split at hc
      · next hd => exact ⟨u, List.mem_cons_self, hd, hc⟩
      · cases hc
  · rw [hfree e]
    refine List.Nodup.append (hl.nodup e) ?_ fun c hc hc' => ?_
    · split
      · exact Chunk.nodup_blocks (hp.fits u List.mem_cons_self)
      · exact List.nodup_nil
    · obtain ⟨v, hv, -, hcv⟩ := hl.free e c hc
      split at hc'
      · exact hout v hv c hcv hc'
      · cases hc'
  · obtain ⟨v, hv, hbv, hnot, hrest⟩ := hl.held k hk
    refine ⟨v, List.mem_cons_of_mem u hv, hbv, ?_, hrest⟩
    rintro ⟨e, he, hin⟩
    exact hnot ⟨e, he, (hsame v hv _ hbv e).mp hin⟩
  · obtain ⟨v, hv, hbv, -, -, hlen, -⟩ := hl.held k hk
    have hap := hp.region_room_apart List.mem_cons_self (List.mem_cons_of_mem u hv) (hne v hv) hbv
    exact (data_of_agree (hmem.agree hap) hlen).trans (hl.data k hk)

lemma dropChunk (hl : Laid L s (u :: us) hs) (hp : Placed L s'.toPages us)
    (hmem : ChangedIn (u.region L) s.mem s'.mem) (hheld : ∀ k ∈ hs, k.addr ∉ u.blocks L)
    (hfree : ∀ e c, c ∈ s'.freeLists e ↔ c ∈ s.freeLists e ∧ c ∉ u.blocks L)
    (hnodup : ∀ e, (s'.freeLists e).Nodup) : Laid L s' us hs := by
  have hnew : u ∉ us := (List.nodup_cons.mp hl.nodup_chunks).1
  have hne : ∀ v ∈ us, u ≠ v := fun v hv heq => hnew (heq ▸ hv)
  have hsame : ∀ v ∈ us, ∀ c ∈ v.blocks L, ∀ e, c ∈ s'.freeLists e ↔ c ∈ s.freeLists e := fun v hv c hc e =>
    (hfree e c).trans (and_iff_left fun hcu =>
      hne v hv (hl.chunk_of_block List.mem_cons_self (List.mem_cons_of_mem u hv) hcu hc))
  have hholder : ∀ k ∈ hs, ∃ v ∈ us, k.addr ∈ v.blocks L ∧ ¬v.HasFree s k.addr ∧ 0 < k.data.length ∧
      k.data.length ≤ v.roomSize ∧ (k.pages = true ↔ v.use = .client) ∧
      (v.use = .client → k.data.length = v.roomSize) := by
    intro k hk
    obtain ⟨v, hv, hbv, hrest⟩ := hl.held k hk
    rcases List.mem_cons.mp hv with rfl | hv
    · exact absurd hbv (hheld k hk)
    · exact ⟨v, hv, hbv, hrest⟩
  refine ⟨hp, fun v hv => ?_, fun e c hc => ?_, hnodup, fun k hk => ?_, hl.distinct, fun k hk => ?_⟩
  · refine (hl.header v (List.mem_cons_of_mem u hv)).congr (fun hclient f => get_of_agree ?_ f) fun e _ c hc =>
      hsame v hv c hc e
    have hagree := hmem.agree (hl.region_header_apart List.mem_cons_self (List.mem_cons_of_mem u hv) (hne v hv))
    simpa [Chunk.header, Chunk.headerSize, hclient] using hagree
  · obtain ⟨hc, hcu⟩ := (hfree e c).mp hc
    obtain ⟨v, hv, hd, hcv⟩ := hl.free e c hc
    rcases List.mem_cons.mp hv with rfl | hv
    · exact absurd hcv hcu
    · exact ⟨v, hv, hd, hcv⟩
  · obtain ⟨v, hv, hbv, hnot, hrest⟩ := hholder k hk
    refine ⟨v, hv, hbv, ?_, hrest⟩
    rintro ⟨e, he, hin⟩
    exact hnot ⟨e, he, (hsame v hv _ hbv e).mp hin⟩
  · obtain ⟨v, hv, hbv, -, -, hlen, -⟩ := hholder k hk
    have hap := hl.region_room_apart List.mem_cons_self (List.mem_cons_of_mem u hv) (hne v hv) hbv
    exact (data_of_agree (hmem.agree hap) hlen).trans (hl.data k hk)

lemma touch (hl : Laid L s us (h :: hs)) {m : Memory} (hmem : ChangedIn h.extent s.mem m) :
    Laid L { s with mem := m } us ({ h with data := m.bytes h.addr h.data.length } :: hs) := by
  obtain ⟨u, hu, hb, hnot, hpos, hlen, hpages, hall⟩ := hl.held h List.mem_cons_self
  have hagree : ∀ x : Extent, (u.room h.addr).Apart x → AgreeOn x s.mem m := fun x hx => hmem.agree (by
    simp only [Extent.Apart, Chunk.room, Holding.extent] at *
    omega)
  have hnew := (List.nodup_cons.mp hl.distinct).1
  refine ⟨⟨⟨hl.owned.base, hl.owned.cnt, hl.owned.taken⟩, hl.fits⟩, fun v hv => ?_, hl.free, hl.nodup,
    List.forall_mem_cons.mpr ⟨?_, fun k hk => hl.held k (List.mem_cons_of_mem h hk)⟩, hl.distinct,
    List.forall_mem_cons.mpr ⟨by simp, fun k hk => ?_⟩⟩
  · refine (hl.header v hv).congr (fun hclient f => get_of_agree ?_ f) fun _ _ _ _ => Iff.rfl
    have hag := hagree _ (hl.header_room_apart hv hu hb).symm
    simpa [Chunk.header, Chunk.headerSize, hclient] using hag
  · refine ⟨u, hu, hb, hnot, ?_⟩
    simpa only [Memory.length_bytes] using ⟨hpos, hlen, hpages, hall⟩
  · obtain ⟨v, hv, hbv, -, -, hlenv, -⟩ := hl.held k (List.mem_cons_of_mem h hk)
    have hne : h.addr ≠ k.addr := fun heq => hnew (heq ▸ List.mem_map_of_mem hk)
    exact (data_of_agree (hagree _ (hl.rooms_apart hu hv hb hbv hne)) hlenv).trans
      (hl.data k (List.mem_cons_of_mem h hk))

end Laid

end CourseArchive.PintOS.Threads
