import CourseArchive.Lib.Runs
import CourseArchive.MmAlloc.Realloc

/-! The block list after any sequence of calls on live pointers, read from memory. -/

namespace CourseArchive.MmAlloc

open Lib

structure Program where
  heap : Heap
  live : Finset ℕ

inductive Call
  | malloc (size : ℕ)
  | realloc (ptr size : ℕ)
  | free (ptr : ℕ)

namespace Call

def Allowed (s : Program) : Call → Prop
  | malloc size => size + blockSize ≤ s.heap.brk
  | realloc ptr size => (ptr = null ∨ ptr ∈ s.live) ∧ size + blockSize ≤ s.heap.brk
  | free ptr => ptr = null ∨ ptr ∈ s.live

instance (s : Program) : (c : Call) → Decidable (c.Allowed s)
  | malloc _ => inferInstanceAs (Decidable (_ ≤ _))
  | realloc .. => inferInstanceAs (Decidable (_ ∧ _))
  | free _ => inferInstanceAs (Decidable (_ ∨ _))

def run (s : Program) : Call → Option Program
  | malloc size => do
    let (r, heap) ← mmMalloc size s.heap
    return ⟨heap, if r = null then s.live else insert r s.live⟩
  | realloc ptr size => do
    let (r, heap) ← mmRealloc ptr size s.heap
    return ⟨heap, if size = 0 then s.live.erase ptr else if r = null then s.live else insert r (s.live.erase ptr)⟩
  | free ptr => some ⟨mmFree ptr s.heap, s.live.erase ptr⟩

end Call

def Walk (h : Heap) : ℕ → List ℕ → Prop
  | a, [] => a = null
  | a, b :: bs => a = b ∧ b ≠ null ∧ Walk h (h.get b .next) bs

structure WellFormed (h : Heap) (as : List ℕ) : Prop where
  walk : Walk h h.first as
  increasing : as.Pairwise (· < ·)
  inverse : as.IsChain fun a b => h.get a .next = b ∧ h.get b .prev = a
  head : ∀ a ∈ as.head?, h.get a .prev = null
  inside : ∀ a ∈ as, h.first ≤ a ∧ a + blockSize + h.get a .size ≤ h.brk
  apart : as.IsChain fun a b => a + blockSize + h.get a .size ≤ b
  ptr : ∀ a ∈ as, h.get a .ptr = a + blockSize
  merged : as.IsChain fun a b => ¬ (h.get a .isFree ≠ 0 ∧ h.get b .isFree ≠ 0)

lemma Linked.walk {h : Heap} {prev : ℕ} {bs : List Blk} (hl : Linked h prev bs null)
    (hpos : ∀ b ∈ bs, 0 < b.addr) : Walk h (headAddr null bs) (bs.map Blk.addr) := by
  induction bs generalizing prev with
  | nil => rfl
  | cons b bs ih =>
    refine ⟨rfl, (hpos b (by simp)).ne', ?_⟩
    rw [hl.1.next]
    exact ih hl.2 fun c hc => hpos c (by simp [hc])

lemma Linked.chain {h : Heap} {prev next : ℕ} {bs : List Blk} (hl : Linked h prev bs next)
    {R : Blk → Blk → Prop} {S : ℕ → ℕ → Prop} (hR : bs.IsChain R)
    (hRS : ∀ a b p q, Header h p b.addr a → Header h a.addr q b → R a b → S a.addr b.addr) :
    (bs.map Blk.addr).IsChain S := by
  induction bs generalizing prev with
  | nil => exact List.isChain_nil
  | cons b bs ih =>
    cases bs with
    | nil => exact List.isChain_singleton _
    | cons c bs =>
      rw [List.isChain_cons_cons] at hR
      exact List.isChain_cons_cons.mpr ⟨hRS b c _ _ hl.1 hl.2.1 hR.1, ih hl.2 hR.2⟩

lemma Valid.wellFormed {h : Heap} {bs : List Blk} (hv : Valid h bs) : WellFormed h (bs.map Blk.addr) := by
  have hchain : bs.IsChain fun a b => a.stop ≤ b.addr := hv.apart.isChain
  refine ⟨hv.first ▸ hv.linked.walk hv.pos, ?_, ?_, ?_, ?_, ?_, ?_, ?_⟩
  · refine List.pairwise_map.mpr (hv.apart.imp ?_)
    intro a b hab
    simp only [Blk.stop, blockSize] at hab
    omega
  · exact hv.linked.chain hchain fun a b p q ha hb _ => ⟨ha.next, hb.prev⟩
  · cases bs with
    | nil =>
      intro a ha
      cases ha
    | cons b bs =>
      intro a ha
      obtain rfl : b.addr = a := Option.some_injective _ ha
      exact hv.linked.1.prev
  · intro a ha
    obtain ⟨b, hb, rfl⟩ := List.mem_map.mp ha
    obtain ⟨p, q, hd⟩ := hv.get_header hb
    exact ⟨hv.first_le hb, by rw [hd.size]; exact (hv.inside b hb).2⟩
  · refine hv.linked.chain hchain fun a b p q ha hb hab => ?_
    rw [ha.size]
    exact hab
  · intro a ha
    obtain ⟨b, hb, rfl⟩ := List.mem_map.mp ha
    obtain ⟨p, q, hd⟩ := hv.get_header hb
    exact hd.ptr
  · refine hv.linked.chain hv.merged fun a b p q ha hb hab => ?_
    rw [ha.isFree, hb.isFree]
    simpa using hab

def Tracks (s : Program) (bs : List Blk) : Prop := Valid s.heap bs ∧ ∀ p, p ∈ s.live ↔ InUse bs p

lemma Tracks.run {s : Program} {bs : List Blk} (h : Tracks s bs) {c : Call} (hc : c.Allowed s) :
    ∃ t, c.run s = some t ∧ ∃ bs', Tracks t bs' := by
  have hlt := h.1.brk_lt
  have malloc : ∀ size, size + blockSize ≤ s.heap.brk →
      ∃ r heap bs', mmMalloc size s.heap = some (r, heap) ∧ (size = 0 → r = null) ∧
        Tracks ⟨heap, if r = null then s.live else insert r s.live⟩ bs' := by
    intro size hsize
    rcases mmMalloc_spec h.1 (by simp only [blockSize] at hsize; omega) (Or.inl hsize)
      (by simp only [wordSize]; omega) (Or.inr (Or.inl hsize)) with
      ⟨heap, e, hg⟩ | ⟨a, heap, bs', e, hs⟩
    · exact ⟨null, heap, bs, e, fun _ => rfl, hg.valid h.1, h.2⟩
    · refine ⟨_, heap, bs', e, ?_, hs.valid, fun p => ?_⟩
      · rintro rfl
        simp only [mmMalloc, if_true, Option.some.injEq, Prod.mk.injEq] at e
        exact e.1.symm
      · rw [if_neg (by simp), Finset.mem_insert, hs.inUse, h.2]
  have free : ∀ p ∈ s.live, ∃ bs', Tracks ⟨mmFree p s.heap, s.live.erase p⟩ bs' := by
    intro p hp
    obtain ⟨t, ht, rfl⟩ := inUse_iff.mp ((h.2 p).mp hp)
    obtain ⟨bs', hv, -, hu, -⟩ := mmFree_spec h.1 ht
    refine ⟨bs', hv, fun q => ?_⟩
    rw [Finset.mem_erase, h.2, h.1.inUse_erase ht hu, and_comm]
  have hnull : null ∉ s.live := fun hp => not_inUse_null bs ((h.2 null).mp hp)
  cases c with
  | malloc size =>
    obtain ⟨r, heap, bs', e, -, ht⟩ := malloc size hc
    exact ⟨_, by rw [Call.run, e]; rfl, bs', ht⟩
  | realloc ptr size =>
    by_cases hp : ptr ∈ s.live
    · obtain ⟨t, ht, rfl⟩ := inUse_iff.mp ((h.2 ptr).mp hp)
      rcases mmRealloc_spec h.1 ht (by have := hc.2; simp only [wordSize]; omega) (Or.inr (Or.inl hc.2)) with
        ⟨hs, e⟩ | ⟨hs, heap, e, hg⟩ | ⟨hs, a, heap, bs', e, hm⟩
      · obtain ⟨bs', hfree⟩ := free _ hp
        exact ⟨_, by rw [Call.run, e]; rfl, bs', by simpa only [if_pos hs] using hfree⟩
      · refine ⟨_, by rw [Call.run, e]; rfl, bs, ?_⟩
        simpa only [if_neg hs, if_true] using ⟨hg.valid h.1, h.2⟩
      · refine ⟨_, by rw [Call.run, e]; rfl, bs', hm.valid, fun q => ?_⟩
        rw [if_neg hs, if_neg (by simp), Finset.mem_insert, Finset.mem_erase, h.2, hm.inUse h.1 ht, and_comm]
    · have hptr : ptr = null := hc.1.resolve_right hp
      by_cases hs : size = 0
      · refine ⟨⟨s.heap, s.live.erase ptr⟩, ?_, bs, h.1, ?_⟩
        · rw [Call.run, mmRealloc, if_pos hs, mmFree, if_pos hptr]
          simp [hs]
        · intro q
          rw [Finset.erase_eq_of_notMem hp]
          exact h.2 q
      · obtain ⟨r, heap, bs', e, -, ht⟩ := malloc size hc.2
        refine ⟨_, by rw [Call.run, mmRealloc, if_neg hs, if_pos hptr, e]; rfl, bs', ?_⟩
        simpa only [if_neg hs, Finset.erase_eq_of_notMem hp] using ht
  | free ptr =>
    by_cases hp : ptr ∈ s.live
    · obtain ⟨bs', ht⟩ := free ptr hp
      exact ⟨_, rfl, bs', ht⟩
    · have hptr : ptr = null := hc.resolve_right hp
      refine ⟨_, rfl, bs, ?_⟩
      rw [mmFree, if_pos hptr, Finset.erase_eq_of_notMem hp]
      exact h

/-- From an allocator that was never called, any sequence of calls on live pointers returns and leaves a
well-formed list whose blocks in use are the live ones. When none is live, one free block is all there is. -/
theorem list_well_formed (h : Heap) (calls : List Call) (hfirst : h.first = null)
    (hbrk : h.base = h.brk ∧ h.brk ≤ h.limit.addr) (ha : AllOk Call.run Call.Allowed ⟨h, ∅⟩ calls) :
    ∃ s as, play Call.run ⟨h, ∅⟩ calls = some s ∧ WellFormed s.heap as ∧
      (∀ p, p ∈ s.live ↔ ∃ a ∈ as, s.heap.get a .isFree = 0 ∧ p = a + blockSize) ∧
      (s.live = ∅ → as = [] ∨ ∃ a, as = [a] ∧ s.heap.get a .isFree ≠ 0) := by
  have hinit : Tracks ⟨h, ∅⟩ [] := by
    refine ⟨⟨⟨trivial, hfirst, List.Pairwise.nil, nofun, nofun, hbrk.1.le, hbrk.2⟩, List.isChain_nil⟩, fun p => ?_⟩
    simp
  obtain ⟨s, e, bs, hv, hlive⟩ := play_of_allOk (fun s => ∃ bs, Tracks s bs)
    (fun s c ⟨bs, ht⟩ hc => ht.run hc) calls ⟨[], hinit⟩ ha
  have huse : ∀ p, p ∈ s.live ↔ ∃ a ∈ bs.map Blk.addr, s.heap.get a .isFree = 0 ∧ p = a + blockSize := by
    intro p
    rw [hlive]
    constructor
    · rintro ⟨b, hb, hf, rfl⟩
      obtain ⟨_, _, hd⟩ := hv.get_header hb
      exact ⟨b.addr, List.mem_map_of_mem hb, by rw [hd.isFree, hf]; rfl, rfl⟩
    · rintro ⟨a, ha, hf, rfl⟩
      obtain ⟨b, hb, rfl⟩ := List.mem_map.mp ha
      obtain ⟨_, _, hd⟩ := hv.get_header hb
      refine ⟨b, hb, ?_, rfl⟩
      rw [hd.isFree] at hf
      cases hbf : b.free
      · rfl
      · rw [hbf] at hf
        cases hf
  refine ⟨s, bs.map Blk.addr, e, hv.wellFormed, huse, fun hnone => ?_⟩
  have hfree : ∀ a ∈ bs.map Blk.addr, s.heap.get a .isFree ≠ 0 := by
    intro a ha hf
    have hp := (huse _).mpr ⟨a, ha, hf, rfl⟩
    rw [hnone] at hp
    exact absurd hp (Finset.notMem_empty _)
  have hm := hv.wellFormed.merged
  cases has : bs.map Blk.addr with
  | nil => exact Or.inl rfl
  | cons a as =>
    rw [has] at hfree hm
    cases as with
    | nil => exact Or.inr ⟨a, rfl, hfree a (by simp)⟩
    | cons b as => exact ((List.isChain_cons_cons.mp hm).1 ⟨hfree a (by simp), hfree b (by simp)⟩).elim

def pageHeap : Heap where
  mem := fun _ => 0
  first := null
  base := 4096
  brk := 4096
  limit := ⟨8192, by decide⟩
  grant := fun i => i != 3

def pageCalls : List Call :=
  [.malloc 64, .malloc 8, .malloc 8, .free 4136, .malloc 16, .free 4240, .realloc 4288 4, .malloc 900, .free 4136,
    .free 4192]

theorem list_well_formed_page :
    ∃ s as, play Call.run ⟨pageHeap, ∅⟩ pageCalls = some s ∧ WellFormed s.heap as ∧
      (s.live = ∅ → as = [] ∨ ∃ a, as = [a] ∧ s.heap.get a .isFree ≠ 0) := by
  obtain ⟨s, as, e, hw, -, hone⟩ := list_well_formed pageHeap pageCalls rfl ⟨rfl, by decide⟩ (by decide)
  exact ⟨s, as, e, hw, hone⟩

end CourseArchive.MmAlloc
