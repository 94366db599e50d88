import CourseArchive.Lib.Runs
import CourseArchive.PintOS.Threads.HeapSpecs

/-! Runs of requests to `malloc.c` and `palloc.c`, from the moment when `palloc_init` returns. -/

namespace CourseArchive.PintOS.Threads

open Lib

/-- A client names what it holds by its place in the list of its holdings, the newest first. -/
inductive HeapOp
  | malloc (size : ℕ)
  | calloc (a b : ℕ)
  | realloc (i newSize : ℕ)
  | free (i : ℕ)
  | write (i ofs : ℕ) (value : UInt8)
  | pallocGet (flags : PallocFlags) (pageCnt : ℕ)
  | pallocFree (i : ℕ)

structure HeapState where
  heap : Heap
  held : List Holding

namespace HeapState

def got (held : List Holding) (p : ℕ) (s : Heap) (data : List UInt8) (pages : Bool) : HeapState :=
  { heap := s, held := if p = 0 then held else ⟨p, data, pages⟩ :: held }

def step (m : HeapState) : HeapOp → Option HeapState
  | .malloc size => do
    let (p, s) ← m.heap.malloc size
    some (got m.held p s (s.mem.bytes p size) false)
  | .calloc a b => do
    let (p, s) ← m.heap.calloc a b
    some (got m.held p s (List.replicate (a * b % wordSize) 0) false)
  | .realloc i newSize => do
    let h ← m.held[i]?
    let (p, s) ← m.heap.realloc h.addr newSize
    let fresh := s.mem.bytes (p + min newSize h.data.length) (newSize - h.data.length)
    some (if p = 0 ∧ newSize ≠ 0 then { m with heap := s }
      else got (m.held.eraseIdx i) p s (h.data.take newSize ++ fresh) false)
  | .free i => do
    let h ← m.held[i]?
    let s ← m.heap.free h.addr
    some { heap := s, held := m.held.eraseIdx i }
  | .write i ofs value => do
    let h ← m.held[i]?
    some { heap := m.heap.fill (h.addr + ofs) value 1
           held := m.held.set i { h with data := h.data.set ofs value } }
  | .pallocGet flags pageCnt => do
    let (p, pages) ← m.heap.pallocGetMultiple flags pageCnt
    some (got m.held p { m.heap with toPages := pages } (pages.mem.bytes p (pgSize * pageCnt)) true)
  | .pallocFree i => do
    let h ← m.held[i]?
    let pages ← m.heap.pallocFreeMultiple h.addr (h.data.length / pgSize)
    some { heap := { m.heap with toPages := pages }, held := m.held.eraseIdx i }

/-- The client gives back only what it holds, to the allocator that it is from, and writes only there. A size
leaves room for the header of an arena in a 32-bit word. -/
def Allowed (m : HeapState) : HeapOp → Prop
  | .malloc size => size + arenaSize ≤ wordSize
  | .calloc a b => a * b % wordSize + arenaSize ≤ wordSize
  | .realloc i newSize => newSize + arenaSize ≤ wordSize ∧ (m.held[i]?.any fun h => !h.pages) = true
  | .free i => (m.held[i]?.any fun h => !h.pages) = true
  | .write i ofs _ => (m.held[i]?.any fun h => decide (ofs < h.data.length)) = true
  | .pallocGet flags _ => flags.assert = false
  | .pallocFree i => (m.held[i]?.any fun h => h.pages) = true

instance (m : HeapState) (op : HeapOp) : Decidable (m.Allowed op) :=
  match op with
  | .malloc _ | .calloc .. => inferInstanceAs (Decidable (_ ≤ _))
  | .realloc .. => inferInstanceAs (Decidable (_ ∧ _))
  | .free _ | .write .. | .pallocGet .. | .pallocFree _ => inferInstanceAs (Decidable (_ = _))

/-- What the clients rely on: nothing that they hold meets anything else that they hold, each finds there what it
has stored, when all is given back all pages are free, and `malloc` fails only when no group of free pages is large
enough. -/
structure Serves (m : HeapState) : Prop where
  apart : m.held.Pairwise fun h k => h.extent.Apart k.extent
  data : ∀ h ∈ m.held, m.heap.mem.bytes h.addr h.data.length = h.data
  inside : ∀ h ∈ m.held, ∃ name, (m.heap.pools name).base ≤ h.addr ∧
    h.addr + h.data.length ≤ (m.heap.pools name).base + pgSize * (m.heap.pools name).usedMap.bitCnt
  returned : m.held = [] → ∀ name, ∀ i < (m.heap.pools name).usedMap.bitCnt,
    (m.heap.pools name).usedMap.bits i = false
  full : ∀ n s, 0 < n → n + arenaSize ≤ wordSize → m.heap.malloc n = some (0, s) →
    ∀ i, i + pagesFor n ≤ (m.heap.pools .kernel).usedMap.bitCnt →
      ∃ k < pagesFor n, (m.heap.pools .kernel).usedMap.bits (i + k) = true

def Kept (L : Layout) (m : HeapState) : Prop := ∃ us, Sound L m.heap us m.held

variable {L : Layout} {m t : HeapState} {i n : ℕ} {h : Holding} {op : HeapOp}

lemma Kept.serves (hm : m.Kept L) : m.Serves := by
  obtain ⟨us, hl⟩ := hm
  refine ⟨?_, hl.data, fun h hh => ?_, fun hnil name i hi => ?_, fun n s hpos hn hnull i hi => ?_⟩
  · refine (List.pairwise_map.mp hl.distinct).imp_of_mem fun {h k} hh hk hne => ?_
    obtain ⟨u, hu, hb, -, -, hlen, -⟩ := hl.held h hh
    obtain ⟨v, hv, hc, -, -, hlen', -⟩ := hl.held k hk
    have hap := hl.rooms_apart hu hv hb hc hne
    simp only [Extent.Apart, Chunk.room, Holding.extent] at *
    omega
  · obtain ⟨u, hu, hb, -, -, hlen, -⟩ := hl.held h hh
    have hin := Chunk.room_inside (hl.fits u hu) hb
    have hlast := hl.inside hu
    refine ⟨u.pool, ?_⟩
    rw [hl.owned.base, hl.owned.cnt]
    simp only [Chunk.addr, Layout.page, pgSize] at *
    omega
  · have hus : us = [] := by
      refine List.eq_nil_iff_forall_not_mem.mpr fun u hu => ?_
      obtain ⟨b, -, hb⟩ := hl.busy u hu
      simp [hnil] at hb
    rw [hl.owned.cnt] at hi
    have hused := (hl.owned.taken name).used_iff i hi
    simpa [extents, hus] using hused
  · rcases hl.malloc hpos hn with ⟨-, hnone⟩ | ⟨p, s', -, hmalloc, hp, -⟩
    · exact hnone i (hl.owned.cnt .kernel ▸ hi)
    · rw [hnull] at hmalloc
      exact absurd (congrArg Prod.fst (Option.some_injective _ hmalloc)).symm hp

lemma perm_of_getElem? {held : List Holding} (h' : held[i]? = some h) : held.Perm (h :: held.eraseIdx i) := by
  obtain ⟨hi, rfl⟩ := List.getElem?_eq_some_iff.mp h'
  exact (List.getElem_cons_eraseIdx_perm hi).symm

lemma Kept.malloc (hm : m.Kept L) (hn : n + arenaSize ≤ wordSize) :
    ∃ p s, m.heap.malloc n = some (p, s) ∧ (got m.held p s (s.mem.bytes p n) false).Kept L := by
  obtain ⟨us, hl⟩ := hm
  rcases Nat.eq_zero_or_pos n with rfl | hpos
  · exact ⟨0, m.heap, rfl, us, hl⟩
  · rcases hl.malloc hpos hn with ⟨hnull, -⟩ | ⟨p, s, us', hmalloc, hp, hsound⟩
    · exact ⟨0, m.heap, hnull, us, hl⟩
    · refine ⟨p, s, hmalloc, us', ?_⟩
      rw [got, if_neg hp]
      exact hsound

lemma Kept.calloc (hm : m.Kept L) {a b : ℕ} (hn : a * b % wordSize + arenaSize ≤ wordSize) :
    ∃ p s, m.heap.calloc a b = some (p, s) ∧
    (got m.held p s (List.replicate (a * b % wordSize) 0) false).Kept L := by
  rw [Heap.calloc]
  split
  · exact ⟨0, m.heap, rfl, hm⟩
  · obtain ⟨p, s, hmalloc, us, hl⟩ := hm.malloc hn
    refine ⟨p, _, by rw [hmalloc]; rfl, ?_⟩
    by_cases hp : p = 0
    · subst hp
      exact ⟨us, hl⟩
    · rw [if_pos hp]
      simp only [got, if_neg hp] at hl ⊢
      have htouched := hl.touch (m := s.mem.fill p (a * b % wordSize) 0) (changedIn_fill _ le_rfl (by
        simp [Holding.extent]))
      simp only [Memory.length_bytes] at htouched
      rw [Memory.bytes_eq_replicate (c := 0) fun i hi => if_pos ⟨Nat.le_add_right p i, by omega⟩] at htouched
      exact ⟨us, htouched⟩

lemma Kept.realloc (hm : m.Kept L) (hn : n + arenaSize ≤ wordSize) (hi : m.held[i]? = some h)
    (hpages : h.pages = false) :
    ∃ t, m.step (.realloc i n) = some t ∧ t.Kept L := by
  obtain ⟨us, hl⟩ := hm
  have hsound := hl.perm (List.Perm.refl us) (perm_of_getElem? hi)
  simp only [step, hi, Option.bind_eq_bind, Option.bind_some]
  rcases Nat.eq_zero_or_pos n with rfl | hpos
  · obtain ⟨s', us', hfree, hsound'⟩ := hsound.freeBlock hpages
    refine ⟨{ heap := s', held := m.held.eraseIdx i }, ?_, us', hsound'⟩
    rw [Heap.realloc, if_pos rfl, hfree]
    rfl
  · rcases hsound.realloc hpages hpos hn with ⟨hnull, -⟩ | ⟨p, s', us', hrealloc, hp, hsound', hprefix⟩
    · refine ⟨m, ?_, us, hl⟩
      rw [hnull]
      exact congrArg some (if_pos ⟨rfl, hpos.ne'⟩)
    · rw [hrealloc]
      simp only [Option.bind_some]
      rw [if_neg fun hzero => hp hzero.1]
      refine ⟨_, rfl, us', ?_⟩
      rw [← hprefix, show n - h.data.length = n - min n h.data.length by omega, ← Memory.bytes_add,
        Nat.add_sub_cancel' (Nat.min_le_left ..), got, if_neg hp]
      exact hsound'

lemma step_kept (hm : m.Kept L) (ho : m.Allowed op) : ∃ t, m.step op = some t ∧ t.Kept L := by
  -- every request that is allowed succeeds, without a panic, and the allocators keep their books
  cases op with
  | malloc size =>
    obtain ⟨p, s, hmalloc, hk⟩ := hm.malloc ho
    exact ⟨_, by simp only [step, hmalloc, Option.bind_eq_bind, Option.bind_some], hk⟩
  | calloc a b =>
    obtain ⟨p, s, hcalloc, hk⟩ := hm.calloc ho
    exact ⟨_, by simp only [step, hcalloc, Option.bind_eq_bind, Option.bind_some], hk⟩
  | realloc i n =>
    obtain ⟨h, hi, hpages⟩ := (Option.any_eq_true _ _).mp ho.2
    exact hm.realloc ho.1 hi (by simpa using hpages)
  | free i =>
    obtain ⟨h, hi, hpages⟩ := (Option.any_eq_true _ _).mp ho
    rw [Bool.not_eq_true'] at hpages
    obtain ⟨us, hl⟩ := hm
    obtain ⟨s', us', hfree, hsound⟩ := (hl.perm (List.Perm.refl us) (perm_of_getElem? hi)).freeBlock hpages
    exact ⟨{ heap := s', held := m.held.eraseIdx i }, by
      simp only [step, hi, hfree, Option.bind_eq_bind, Option.bind_some], us', hsound⟩
  | write i ofs value =>
    obtain ⟨h, hi, hofs⟩ := (Option.any_eq_true _ _).mp ho
    rw [decide_eq_true_eq] at hofs
    obtain ⟨us, hl⟩ := hm
    refine ⟨_, by simp only [step, hi, Option.bind_eq_bind, Option.bind_some]; rfl, us, ?_⟩
    have hperm := perm_of_getElem? hi
    have hsound := hl.perm (List.Perm.refl us) hperm
    have hchanged : ChangedIn h.extent m.heap.mem (m.heap.mem.fill (h.addr + ofs) 1 value) :=
      changedIn_fill _ (Nat.le_add_right _ _) (by simp only [Holding.extent]; omega)
    have htouched := hsound.touch hchanged
    rw [Memory.bytes_fill_one, hl.data h (hperm.mem_iff.mpr List.mem_cons_self)] at htouched
    refine htouched.perm (List.Perm.refl us) ?_
    obtain ⟨hlt, -⟩ := List.getElem?_eq_some_iff.mp hi
    have hset : (m.held.set i { h with data := h.data.set ofs value }).Perm
      ({ h with data := h.data.set ofs value } ::
        (m.held.set i { h with data := h.data.set ofs value }).eraseIdx i) :=
        perm_of_getElem? (List.getElem?_set_self hlt)
    rw [List.eraseIdx_set_eq] at hset
    exact hset.symm
  | pallocGet flags pageCnt =>
    obtain ⟨us, hl⟩ := hm
    rcases Nat.eq_zero_or_pos pageCnt with rfl | hpos
    · exact ⟨m, rfl, us, hl⟩
    · rcases hl.pallocGet hpos ho with ⟨hnull, -⟩ | ⟨p, q, us', hget, hp, hsound, -⟩
      · exact ⟨m, by simp only [step, hnull, Option.bind_eq_bind, Option.bind_some, got, if_true], us, hl⟩
      · refine ⟨_, by simp only [step, hget, Option.bind_eq_bind, Option.bind_some]; rfl, us', ?_⟩
        rw [got, if_neg hp]
        exact hsound
  | pallocFree i =>
    obtain ⟨h, hi, hpages⟩ := (Option.any_eq_true _ _).mp ho
    obtain ⟨us, hl⟩ := hm
    obtain ⟨q, us', hfree, hsound⟩ := (hl.perm (List.Perm.refl us) (perm_of_getElem? hi)).pallocFree hpages
    exact ⟨{ heap := { m.heap with toPages := q }, held := m.held.eraseIdx i },
      by simp only [step, hi, hfree, Option.bind_eq_bind, Option.bind_some], us', hsound⟩

end HeapState

/-- From `palloc_init` on, any requests that are allowed are served: no assertion fails, no panic, and the clients
find what they rely on. -/
theorem requests_served {mem : Memory} {initRamPages userPageLimit : ℕ} {leftover : ℕ → Bool} {pages : Pages}
    (hinit : Pages.pallocInit mem initRamPages userPageLimit leftover = some pages) (hlow : 256 ≤ initRamPages)
    (hhigh : initRamPages ≤ 2 ^ 18) (ops : List HeapOp)
    (hallowed : AllOk HeapState.step HeapState.Allowed ⟨⟨pages, fun _ => []⟩, []⟩ ops) :
    ∃ t, play HeapState.step ⟨⟨pages, fun _ => []⟩, []⟩ ops = some t ∧ t.Serves := by
  obtain ⟨L, howned⟩ := pallocInit_owned hinit hlow hhigh
  have hstart : HeapState.Kept L ⟨⟨pages, fun _ => []⟩, []⟩ := by
    refine ⟨[], ⟨⟨⟨howned, by simp⟩, by simp, by simp, by simp, by simp, by simp, by simp⟩, by simp, by simp⟩⟩
  obtain ⟨t, hplay, hkept⟩ := play_of_allOk (HeapState.Kept L) (fun m op hm ho => HeapState.step_kept hm ho)
    ops hstart hallowed
  exact ⟨t, hplay, hkept.serves⟩

theorem requests_served_small : ∃ pages, Pages.pallocInit (fun _ => 0) 264 2 (fun _ => false) = some pages ∧
    ∃ t, play HeapState.step ⟨⟨pages, fun _ => []⟩, []⟩
    [.malloc 20, .calloc 3 8, .write 0 5 7, .realloc 0 2000, .free 1,
      .pallocGet ⟨false, true, true⟩ 1, .free 1, .pallocFree 0] = some t ∧ t.Serves :=
  ⟨_, rfl, requests_served (rfl : Pages.pallocInit (fun _ => 0) 264 2 (fun _ => false) = some _) (by decide)
    (by decide) _
    (by decide +kernel)⟩

end CourseArchive.PintOS.Threads
