import CourseArchive.MmAlloc.Contents

/-! The sizes for which `mm_malloc` stays inside the heap, after any run. -/

namespace CourseArchive.MmAlloc

open Lib Heap

def StaysInside (h : Heap) (n : ℕ) : Prop :=
  ∃ r h', mmMalloc n h = some (r, h') ∧
    ((r = null ∧ h'.mem = h.mem ∧ h'.first = h.first ∧ h'.brk = h.brk) ∨
      ∃ a ∈ blocks h', r = a + blockSize ∧ h'.first ≤ a ∧ r + n ≤ h'.brk)

def Handled (h : Heap) (n : ℕ) : Prop := n < wordSize ∧ Sized h n

instance (h : Heap) (n : ℕ) : Decidable (Handled h n) := inferInstanceAs (Decidable (_ ∧ _))

structure Untouched (h : Heap) : Prop where
  first : h.first = null
  base : h.base = h.brk
  bound : h.brk ≤ h.limit.addr
  pos : 0 < h.brk

lemma Untouched.run {h : Heap} (hu : Untouched h) {ops : List Op}
    (ha : AllOk Session.step (Op.Allowed Handled) (Session.start h) ops) :
    ∃ s, play Session.step (Session.start h) ops = some s ∧ 0 < s.heap.brk ∧ ∃ bs, Owns s bs := by
  let I : Session → Prop := fun s => (∃ bs, Owns s bs) ∧ s.heap.base = h.base
  have hpos : ∀ s, I s → 0 < s.heap.brk := by
    rintro s ⟨⟨bs, ho⟩, hb⟩
    have hle := ho.valid.bounds.1
    rw [hb, hu.base] at hle
    exact hu.pos.trans_le hle
  have hstep : ∀ s o, I s → o.Allowed Handled s → ∃ s', s.step o = some s' ∧ I s' := by
    intro s o hI hs
    obtain ⟨⟨bs, ho⟩, hb⟩ := id hI
    obtain ⟨s', e, ho', hb'⟩ := ho.step hs fun n hn => ⟨hpos s hI, hn⟩
    exact ⟨s', e, ho', hb'.trans hb⟩
  obtain ⟨s, e, hI⟩ := play_of_allOk I hstep ops ⟨⟨[], Owns.start hu.first ⟨hu.base, hu.bound⟩⟩, rfl⟩ ha
  exact ⟨s, e, hpos s hI, hI.1⟩

lemma Owns.staysInside_iff {s : Session} {bs : List Blk} (ho : Owns s bs) (hpos : 0 < s.heap.brk) {n : ℕ}
    (hn : n < wordSize) : StaysInside s.heap n ↔ Sized s.heap n := by
  constructor
  · rintro ⟨r, h', e, hr⟩
    by_contra hs
    obtain ⟨a, h'', e', hout⟩ := mmMalloc_outside ho.valid hn hs
    obtain ⟨rfl, rfl⟩ := Prod.mk.inj (Option.some_injective _ (e.symm.trans e'))
    rcases hr with ⟨hr, -⟩ | ⟨-, -, -, -, hle⟩
    · simp at hr
    · omega
  · intro hs
    rcases mmMalloc_spec ho.valid hpos (Or.inr ho.started) hn hs with ⟨h', e, hg⟩ | ⟨a, h', bs', e, hs⟩
    · exact ⟨null, h', e, Or.inl ⟨rfl, hg.mem, hg.first, hg.brk⟩⟩
    · have hb := hs.block.1
      refine ⟨_, h', e, Or.inr ⟨a, ?_, rfl, hs.valid.first_le hb, (hs.valid.inside _ hb).2⟩⟩
      rw [hs.valid.blocks_eq]
      exact List.mem_map_of_mem hb

/-- After any run of calls on live pointers and stores into live blocks whose requests are all handled, the
requests that stay inside the heap are the handled ones. -/
theorem malloc_staysInside_iff (h : Heap) (ops : List Op) (hu : Untouched h)
    (ha : AllOk Session.step (Op.Allowed Handled) (Session.start h) ops) :
    ∃ s, play Session.step (Session.start h) ops = some s ∧
      ∀ n < wordSize, (StaysInside s.heap n ↔ Sized s.heap n) := by
  obtain ⟨s, e, hpos, bs, ho⟩ := hu.run ha
  exact ⟨s, e, fun n hn => ho.staysInside_iff hpos hn⟩

lemma untouched_pageHeap : Untouched pageHeap := ⟨rfl, rfl, by decide, by decide⟩

theorem malloc_staysInside_iff_page : ∃ s, play Session.step (Session.start pageHeap) pageOps = some s ∧
    ∀ n < wordSize, (StaysInside s.heap n ↔ Sized s.heap n) :=
  malloc_staysInside_iff pageHeap pageOps untouched_pageHeap (by decide)

theorem huge_requests_leave_heap :
    ¬ StaysInside pageHeap (2 ^ 64 - 1) ∧
      ∃ s, play Session.step (Session.start pageHeap) [.malloc 8] = some s ∧ ¬ StaysInside s.heap (2 ^ 63) := by
  -- the first request of `2 ^ 64 - 1` bytes gets a block of 39 bytes, header included. Behind a first block, one
  -- of `2 ^ 63` bytes gets no bytes at all
  have hrun : ∀ ops n, AllOk Session.step (Op.Allowed Handled) (Session.start pageHeap) ops → n < wordSize →
      (∀ s, play Session.step (Session.start pageHeap) ops = some s → ¬ Sized s.heap n) →
      ∃ s, play Session.step (Session.start pageHeap) ops = some s ∧ ¬ StaysInside s.heap n := by
    intro ops n ha hn hs
    obtain ⟨s, e, hpos, bs, ho⟩ := untouched_pageHeap.run ha
    exact ⟨s, e, (ho.staysInside_iff hpos hn).not.mpr (hs s e)⟩
  constructor
  · obtain ⟨s, e, hno⟩ := hrun [] (2 ^ 64 - 1) trivial (by decide) (by
      rintro s ⟨⟩
      decide)
    obtain rfl := Option.some_injective _ e
    exact hno
  · apply hrun [.malloc 8] (2 ^ 63) (by decide) (by decide)
    rintro s ⟨⟩
    decide

end CourseArchive.MmAlloc
