import CourseArchive.Lib.Extents
import CourseArchive.Lib.Memory
import CourseArchive.PintOS.Kernel.Bitmap
import CourseArchive.PintOS.Userprog.UserMemory

/-! The page allocator (`threads/palloc.c`). Addresses are numbers, the null pointer is `0`, and `none` stands for
a panic or a failed assertion. -/

namespace CourseArchive.PintOS

open Lib

namespace Bitmap

variable {b : Bitmap} {start cnt i j : ℕ} {value : Bool}

def scanAndFlip (b : Bitmap) (start cnt : ℕ) (value : Bool) : Option ℕ × Bitmap :=
  match b.scan start cnt value with
  | some idx => (some idx, b.setMultiple idx cnt !value)
  | none => (none, b)

lemma not_contains_iff : b.contains i cnt (!value) = false ↔ ∀ j < cnt, b.bits (i + j) = value := by
  simp [contains]

lemma scanFrom_group {fuel : ℕ} (h : b.scanFrom cnt value fuel i = some j) :
    i ≤ j ∧ j < i + fuel ∧ ∀ k < cnt, b.bits (j + k) = value := by
  induction fuel generalizing i with
  | zero => cases h
  | succ fuel ih =>
    rw [scanFrom] at h
    split at h
    · next hc =>
      obtain rfl := Option.some_injective _ h
      exact ⟨le_rfl, by omega, not_contains_iff.mp (by simpa using hc)⟩
    · obtain ⟨hle, hlt, hbits⟩ := ih h
      exact ⟨by omega, by omega, hbits⟩

lemma scanFrom_no_group {fuel : ℕ} (h : b.scanFrom cnt value fuel i = none) (hi : i ≤ j) (hj : j < i + fuel) :
    ¬∀ k < cnt, b.bits (j + k) = value := by
  induction fuel generalizing i with
  | zero => omega
  | succ fuel ih =>
    rw [scanFrom] at h
    split at h
    · cases h
    · next hc =>
      rcases Nat.eq_or_lt_of_le hi with rfl | hlt
      · exact fun hbits => hc (by simpa using not_contains_iff.mpr hbits)
      · exact ih h hlt (by omega)

lemma scan_group (h : b.scan start cnt value = some j) :
    start ≤ j ∧ j + cnt ≤ b.bitCnt ∧ ∀ k < cnt, b.bits (j + k) = value := by
  rw [scan] at h
  split at h
  · obtain ⟨hle, hlt, hbits⟩ := scanFrom_group h
    exact ⟨hle, by omega, hbits⟩
  · cases h

lemma scan_no_group (h : b.scan start cnt value = none) (hj : start ≤ j) (hin : j + cnt ≤ b.bitCnt) :
    ¬∀ k < cnt, b.bits (j + k) = value := by
  rw [scan, if_pos (by omega)] at h
  exact scanFrom_no_group h hj (by omega)

end Bitmap

namespace Threads

def pgNo (a : ℕ) : ℕ := a / pgSize

def pgRoundDown (a : ℕ) : ℕ := a / pgSize * pgSize

structure Pool where
  usedMap : Bitmap
  base : ℕ

inductive PoolName
  | kernel | user
  deriving DecidableEq

structure PallocFlags where
  assert : Bool
  zero : Bool
  user : Bool

structure Pages where
  mem : Memory
  pools : PoolName → Pool

def Pool.pageFromPool (p : Pool) (page : ℕ) : Bool :=
  decide (pgNo p.base ≤ pgNo page ∧ pgNo page < pgNo p.base + p.usedMap.bitCnt)

def PallocFlags.pool (flags : PallocFlags) : PoolName := if flags.user then .user else .kernel

namespace Pages

def setUsed (s : Pages) (name : PoolName) (usedMap : Bitmap) : Pages :=
  { s with pools := Function.update s.pools name { s.pools name with usedMap := usedMap } }

def memset (s : Pages) (a : ℕ) (b : UInt8) (n : ℕ) : Pages := { s with mem := s.mem.fill a n b }

def pallocGetMultiple (s : Pages) (flags : PallocFlags) (pageCnt : ℕ) : Option (ℕ × Pages) :=
  let name := flags.pool
  if pageCnt = 0 then some (0, s)
  else
    match (s.pools name).usedMap.scanAndFlip 0 pageCnt false with
    | (some pageIdx, usedMap) =>
      let pages := (s.pools name).base + pgSize * pageIdx
      let s := s.setUsed name usedMap
      some (pages, if flags.zero then s.memset pages 0 (pgSize * pageCnt) else s)
    | (none, _) => if flags.assert then none else some (0, s)

def pallocGetPage (s : Pages) (flags : PallocFlags) : Option (ℕ × Pages) := s.pallocGetMultiple flags 1

def poolOf (s : Pages) (pages : ℕ) : Option PoolName :=
  if (s.pools .kernel).pageFromPool pages then some .kernel
  else if (s.pools .user).pageFromPool pages then some .user
  else none

def pallocFreeMultiple (s : Pages) (pages pageCnt : ℕ) : Option Pages :=
  if pgOfs pages ≠ 0 then none
  else if pages = 0 ∨ pageCnt = 0 then some s
  else do
    let name ← s.poolOf pages
    let pageIdx := pgNo pages - pgNo (s.pools name).base
    let s := s.memset pages 0xcc (pgSize * pageCnt)
    let usedMap := (s.pools name).usedMap
    if usedMap.InBounds pageIdx pageCnt ∧ usedMap.all pageIdx pageCnt then
      some (s.setUsed name (usedMap.setMultiple pageIdx pageCnt false))
    else none

def pallocFreePage (s : Pages) (page : ℕ) : Option Pages := s.pallocFreeMultiple page 1

/-- The bitmap of a pool stands at its base; `leftover` are the bits behind its last one. -/
def initPool (base pageCnt : ℕ) (leftover : ℕ → Bool) : Option Pool :=
  let bmPages := (8 + Bitmap.byteCnt pageCnt + pgSize - 1) / pgSize
  if pageCnt < bmPages then none
  else some { usedMap := Bitmap.create (pageCnt - bmPages) leftover, base := base + bmPages * pgSize }

def pallocInit (mem : Memory) (initRamPages userPageLimit : ℕ) (leftover : ℕ → Bool) : Option Pages := do
  let freeStart := physBase + 1024 * 1024
  let freePages := (physBase + initRamPages * pgSize - freeStart) / pgSize
  let userPages := min (freePages / 2) userPageLimit
  let kernelPages := freePages - userPages
  let kernelPool ← initPool freeStart kernelPages leftover
  let userPool ← initPool (freeStart + kernelPages * pgSize) userPages leftover
  some { mem := mem, pools := fun
    | .kernel => kernelPool
    | .user => userPool }

end Pages

structure Layout where
  base : PoolName → ℕ
  cnt : PoolName → ℕ
  aligned : ∀ name, pgOfs (base name) = 0
  positive : ∀ name, 0 < base name
  bounded : ∀ name, base name + pgSize * cnt name ≤ 2 ^ 32
  apart : base .kernel + pgSize * cnt .kernel ≤ base .user

namespace Layout

def page (L : Layout) (name : PoolName) (i : ℕ) : ℕ := L.base name + pgSize * i

def region (L : Layout) (name : PoolName) (x : Extent) : Extent := ⟨L.page name x.start, pgSize * x.cnt⟩

variable (L : Layout) (name : PoolName) (i : ℕ)

lemma page_pos : 0 < L.page name i := Nat.add_pos_left (L.positive name) _

lemma pgOfs_page : pgOfs (L.page name i) = 0 := by
  have ha := L.aligned name
  simp only [pgOfs, page, pgSize] at *
  omega

lemma pgNo_page : pgNo (L.page name i) = pgNo (L.base name) + i := by
  simp only [pgNo, page, pgSize]
  omega

end Layout

structure Owned (L : Layout) (s : Pages) (held : PoolName → List Extent) : Prop where
  base : ∀ name, (s.pools name).base = L.base name
  cnt : ∀ name, (s.pools name).usedMap.bitCnt = L.cnt name
  taken : ∀ name, Taken (s.pools name).usedMap.bits (L.cnt name) (held name)

namespace Owned

variable {L : Layout} {s : Pages} {held : PoolName → List Extent} {name : PoolName} {x : Extent}
  {rest : List Extent}
  {c : ℕ}

lemma setUsed (h : Owned L s held) {usedMap : Bitmap} (hcnt : usedMap.bitCnt = L.cnt name)
    (ht : Taken usedMap.bits (L.cnt name) rest) :
    Owned L (s.setUsed name usedMap) (Function.update held name rest) where
  base n := by
    by_cases hn : n = name
    · subst hn
      simpa [Pages.setUsed] using h.base n
    · simpa [Pages.setUsed, hn] using h.base n
  cnt n := by
    by_cases hn : n = name
    · subst hn
      simpa [Pages.setUsed] using hcnt
    · simpa [Pages.setUsed, hn] using h.cnt n
  taken n := by
    by_cases hn : n = name
    · subst hn
      simpa [Pages.setUsed] using ht
    · simpa [Pages.setUsed, hn] using h.taken n

lemma perm (h : Owned L s held) {held' : PoolName → List Extent} (hp : ∀ n, (held n).Perm (held' n)) :
    Owned L s held' :=
  ⟨h.base, h.cnt, fun n => (h.taken n).perm (hp n)⟩

lemma memset (h : Owned L s held) (a : ℕ) (b : UInt8) (n : ℕ) : Owned L (s.memset a b n) held :=
  ⟨h.base, h.cnt, h.taken⟩

lemma pallocGetMultiple (h : Owned L s held) (flags : PallocFlags) (hc : 0 < c) (hassert : flags.assert = false) :
    (∃ i t, s.pallocGetMultiple flags c = some (L.page flags.pool i, t) ∧
      Owned L t (Function.update held flags.pool (⟨i, c⟩ :: held flags.pool)) ∧
      t.mem = if flags.zero then s.mem.fill (L.page flags.pool i) (pgSize * c) 0 else s.mem) ∨
    (s.pallocGetMultiple flags c = some (0, s) ∧
      ∀ i, i + c ≤ L.cnt flags.pool → ∃ k < c, (s.pools flags.pool).usedMap.bits (i + k) = true) := by
  rw [Pages.pallocGetMultiple, if_neg hc.ne']
  set p := flags.pool
  cases hscan : (s.pools p).usedMap.scan 0 c false with
  | none =>
    right
    simp only [Bitmap.scanAndFlip, hscan, hassert, Bool.false_eq_true, if_false, true_and]
    intro i hi
    have hno := Bitmap.scan_no_group hscan (Nat.zero_le i) (by rwa [h.cnt p])
    simpa using hno
  | some i =>
    left
    obtain ⟨-, hin, hfree⟩ := Bitmap.scan_group hscan
    rw [h.cnt p] at hin
    have htaken : Taken ((s.pools p).usedMap.setMultiple i c true).bits (L.cnt p) (⟨i, c⟩ :: held p) := by
      refine (h.taken p).take hc hin (fun j hj => ?_) fun j => rfl
      obtain ⟨k, rfl⟩ := Nat.exists_eq_add_of_le hj.1
      exact hfree k (by simpa [Extent.Has] using hj)
    have howned : Owned L (s.setUsed p ((s.pools p).usedMap.setMultiple i c true))
        (Function.update held p (⟨i, c⟩ :: held p)) := h.setUsed (h.cnt p) htaken
    simp only [Bitmap.scanAndFlip, hscan, Bool.not_false, h.base p]
    refine ⟨i, _, rfl, ?_, ?_⟩
    · split
      · exact howned.memset ..
      · exact howned
    · split <;> rfl

lemma poolOf (h : Owned L s held) {i : ℕ} (hi : i < L.cnt name) : s.poolOf (L.page name i) = some name := by
  have hap : pgNo (L.base .kernel) + L.cnt .kernel ≤ pgNo (L.base .user) := by
    have hk := L.aligned .kernel
    have hu := L.aligned .user
    have := L.apart
    simp only [pgOfs, pgNo, pgSize] at *
    omega
  simp only [Pages.poolOf, Pool.pageFromPool, h.base, h.cnt, L.pgNo_page, decide_eq_true_eq]
  cases name with
  | kernel => exact if_pos ⟨by omega, by omega⟩
  | user =>
    rw [if_neg (by omega)]
    exact if_pos ⟨by omega, by omega⟩

lemma pallocFreeMultiple (h : Owned L s held) (hp : (held name).Perm (x :: rest)) :
    ∃ t, s.pallocFreeMultiple (L.page name x.start) x.cnt = some t ∧ Owned L t (Function.update held name rest) ∧
      t.mem = s.mem.fill (L.page name x.start) (pgSize * x.cnt) 0xcc := by
  have htaken := (h.taken name).perm hp
  have hpos := htaken.nonempty x List.mem_cons_self
  have hin := htaken.inside x List.mem_cons_self
  set t := s.memset (L.page name x.start) 0xcc (pgSize * x.cnt) with ht
  have hidx : pgNo (L.page name x.start) - pgNo (s.pools name).base = x.start := by
    rw [L.pgNo_page, h.base name, Nat.add_sub_cancel_left]
  have hcnt : (t.pools name).usedMap.bitCnt = L.cnt name := h.cnt name
  have hall : (t.pools name).usedMap.all x.start x.cnt = true := by
    simp only [Bitmap.all, Bitmap.contains, Bool.not_eq_true', List.any_eq_false, List.mem_range, beq_iff_eq,
      Bool.not_eq_false]
    exact fun k hk => htaken.used_of_mem List.mem_cons_self ⟨by omega, by omega⟩
  refine ⟨t.setUsed name ((t.pools name).usedMap.setMultiple x.start x.cnt false), ?_, ?_, rfl⟩
  · rw [Pages.pallocFreeMultiple, if_neg (by simp [L.pgOfs_page]),
      if_neg (by have := L.page_pos name x.start; omega), h.poolOf (by omega)]
    simp only [Option.bind_eq_bind, Option.bind_some]
    rw [← ht, hidx, if_pos ⟨⟨by omega, by omega⟩, hall⟩]
  · exact (h.memset ..).setUsed hcnt (htaken.release fun _ => rfl)

end Owned

lemma Pages.initPool_spec {base pageCnt : ℕ} {leftover : ℕ → Bool} {p : Pool}
    (h : initPool base pageCnt leftover = some p) (ha : pgOfs base = 0) :
    pgOfs p.base = 0 ∧ base ≤ p.base ∧ p.base + pgSize * p.usedMap.bitCnt = base + pgSize * pageCnt ∧
      Taken p.usedMap.bits p.usedMap.bitCnt [] := by
  rw [initPool] at h
  split at h
  · cases h
  · obtain rfl := Option.some_injective _ h
    refine ⟨?_, Nat.le_add_right _ _, ?_, .nil fun i hi => ?_⟩
    · simp only [pgOfs, pgSize] at *
      omega
    · simp only [Bitmap.create, pgSize] at *
      omega
    · exact if_pos hi

lemma pallocInit_owned {mem : Memory} {initRamPages userPageLimit : ℕ} {leftover : ℕ → Bool} {s : Pages}
    (h : Pages.pallocInit mem initRamPages userPageLimit leftover = some s) (hlow : 256 ≤ initRamPages)
    (hhigh : initRamPages ≤ 2 ^ 18) : ∃ L : Layout, Owned L s fun _ => [] := by
  obtain ⟨kernelPool, hk, h⟩ := Option.bind_eq_some_iff.mp h
  obtain ⟨userPool, hu, h⟩ := Option.bind_eq_some_iff.mp h
  obtain rfl := Option.some_injective _ h
  obtain ⟨hkbase, hkle, hkend, hktaken⟩ := Pages.initPool_spec hk (by decide)
  obtain ⟨hubase, hule, huend, hutaken⟩ := Pages.initPool_spec hu (by simp only [pgOfs, physBase, pgSize]; omega)
  refine ⟨{ base := fun name => PoolName.casesOn name kernelPool.base userPool.base
            cnt := fun name => PoolName.casesOn name kernelPool.usedMap.bitCnt userPool.usedMap.bitCnt
            aligned := ?_, positive := ?_, bounded := ?_, apart := ?_ }, ?_, ?_, ?_⟩
  all_goals simp only [physBase, pgSize] at hkle hkend hule huend
  · rintro (_ | _) <;> assumption
  · rintro (_ | _)
    · exact lt_of_lt_of_le (by norm_num) hkle
    · exact lt_of_lt_of_le (by norm_num) hule
  · rintro (_ | _)
    · simp only [pgSize]
      omega
    · simp only [pgSize]
      omega
  · simp only [pgSize]
    omega
  · rintro (_ | _) <;> rfl
  · rintro (_ | _) <;> rfl
  · rintro (_ | _) <;> assumption

end Threads

end CourseArchive.PintOS
