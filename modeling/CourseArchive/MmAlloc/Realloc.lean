import CourseArchive.MmAlloc.Free
import CourseArchive.MmAlloc.Requests

/-! `mm_realloc` of a block in use. -/

namespace CourseArchive.MmAlloc

open Lib Heap

lemma Valid.write {h : Heap} {bs : List Blk} {b : Blk} (hv : Valid h bs) (h' : Heap) (hb : b ∈ bs)
    (hg : SameGlobals h h') (hw : ∀ x, x < b.data ∨ b.stop ≤ x → h'.mem x = h.mem x) :
    Valid h' bs ∧ ∀ c ∈ bs, c ≠ b → SameData h h' c := by
  refine ⟨⟨⟨hv.linked.frame fun c hc f => get_congr fun x hx => hw x ?_, hg.first.trans hv.first, hv.apart,
    ?_, hv.pos,
    ?_⟩, hv.merged⟩, ?_⟩
  · by_contra hin
    exact hx (hv.data_outside hc hb (by omega) (by omega))
  · rw [hg.base, hg.brk]
    exact hv.inside
  · rw [hg.base, hg.brk, hg.limit]
    exact hv.bounds
  · intro c hc hne x hx hx'
    apply hw
    have := (hv.order hb hc).resolve_left hne.symm
    simp only [Blk.stop, Blk.data] at *
    omega

def resized (d : List UInt8) (n : ℕ) : List UInt8 := d.take n ++ List.replicate (n - d.length) 0

structure Moved (h h' : Heap) (bs : List Blk) (t : Blk) (n a : ℕ) (bs' : List Blk) : Prop where
  valid : Valid h' bs'
  used : ∀ c, Used bs' c ↔ c = ⟨a, n, false⟩ ∨ Used bs c ∧ c ≠ t
  fresh : ¬ InUse bs (a + blockSize)
  data : ∀ c, Used bs c → c ≠ t → SameData h h' c
  contents : h'.mem.bytes (a + blockSize) n = resized (h.mem.bytes t.data t.size) n
  base : h'.base = h.base

lemma Moved.inUse {h h' : Heap} {bs bs' : List Blk} {t : Blk} {n a : ℕ} (hm : Moved h h' bs t n a bs')
    (hv : Valid h bs) (ht : Used bs t) (p : ℕ) :
    InUse bs' p ↔ p = a + blockSize ∨ InUse bs p ∧ p ≠ t.data := by
  have hu : ∀ c, Used (bs.filter (· ≠ t)) c ↔ Used bs c ∧ c ≠ t := by simp [Used, and_right_comm]
  rw [← hv.inUse_erase ht hu]
  simp only [inUse_iff, hm.used]
  constructor
  · rintro ⟨b, rfl | hb, rfl⟩
    · exact Or.inl rfl
    · exact Or.inr ⟨b, by simpa [Used, and_right_comm] using hb, rfl⟩
  · rintro (rfl | ⟨b, hb, rfl⟩)
    · exact ⟨_, Or.inl rfl, rfl⟩
    · exact ⟨b, Or.inr (by simpa [Used, and_right_comm] using hb), rfl⟩

lemma resized_bytes {m m' : Memory} {p q s n : ℕ} (hcopy : ∀ i < min s n, m' (q + i) = m (p + i))
    (hzero : ∀ i < n, s ≤ i → m' (q + i) = 0) : m'.bytes q n = resized (m.bytes p s) n := by
  rw [resized, Memory.length_bytes]
  by_cases hs : s ≤ n
  · obtain ⟨k, rfl⟩ := Nat.exists_eq_add_of_le hs
    rw [Memory.bytes_add, List.take_of_length_le (by simp), Nat.add_sub_cancel_left]
    congr 1
    · exact Memory.bytes_congr fun i hi => hcopy i (by omega)
    · apply Memory.bytes_eq_replicate
      intro i hi
      rw [Nat.add_assoc]
      exact hzero (s + i) (by omega) (by omega)
  · rw [Memory.take_bytes (by omega), Nat.sub_eq_zero_of_le (by omega), List.replicate_zero, List.append_nil]
    exact Memory.bytes_congr fun i hi => hcopy i (by omega)

lemma mmRealloc_spec {h : Heap} {bs : List Blk} {t : Blk} {n : ℕ} (hv : Valid h bs) (ht : Used bs t)
    (hn : n < wordSize) (hs : Sized h n) :
    (n = 0 ∧ mmRealloc t.data n h = some (null, mmFree t.data h)) ∨
    (n ≠ 0 ∧ ∃ h', mmRealloc t.data n h = some (null, h') ∧ Grown h h' 0) ∨
    (n ≠ 0 ∧ ∃ a h' bs', mmRealloc t.data n h = some (a + blockSize, h') ∧ Moved h h' bs t n a bs') := by
  by_cases hn0 : n = 0
  · exact Or.inl ⟨hn0, by rw [mmRealloc, if_pos hn0]⟩
  have hpne : t.data ≠ null := by simp [Blk.data]
  have hfind : findHead t.data h = t.addr := findHead_spec hv.toLaid ht.1
  have htne : t.addr ≠ null := (hv.pos t ht.1).ne'
  have hst : Started h bs := fun hnil => by simp [Used, hnil] at ht
  have hpos : 0 < h.brk := (hv.pos t ht.1).trans_le (t.addr_le_stop.trans (hv.inside t ht.1).2)
  rcases mmMalloc_spec hv hpos (Or.inr hst) hn hs with ⟨h₁, e, hg⟩ | ⟨a, h₁, bs₁, e, hs⟩
  · refine Or.inr (Or.inl ⟨hn0, h₁, ?_, hg⟩)
    rw [mmRealloc, if_neg hn0, if_neg hpne, hfind, e]
    simp
  · -- the old block is still where it was
    have ht₁ : Used bs₁ t := (hs.used t).mpr (Or.inr ht)
    have hnew := hs.block
    have hne : t ≠ ⟨a, n, false⟩ := by
      rintro rfl
      exact hs.fresh (inUse_iff.mpr ⟨_, ht, rfl⟩)
    obtain ⟨_, _, hd⟩ := hs.valid.get_header ht₁.1
    have hflag : h₁.get t.addr .isFree = 0 := by
      rw [hd.isFree, ht.2]
      rfl
    have hk : (if t.size > n then n else t.size) = min t.size n := by
      simp only [min_def]
      split <;> split <;> omega
    obtain ⟨hv₂, hd₂⟩ := hs.valid.write (h₁.memcpy (a + blockSize) t.data (min t.size n)) hnew.1
      ⟨rfl, rfl, rfl, rfl⟩ fun x hx => if_neg (by
        have hle := min_le_right t.size n
        simp only [Blk.data, Blk.stop] at hx
        omega)
    obtain ⟨bs', hv', hg', hu, hd'⟩ := mmFree_spec hv₂ ht₁
    refine Or.inr (Or.inr ⟨hn0, a, _, bs', ?_, hv', fun c => ?_, hs.fresh, ?_, ?_, hg'.base.trans hs.base⟩)
    · rw [mmRealloc, if_neg hn0, if_neg hpne, hfind, e]
      have hr : a + blockSize ≠ null := by simp
      simp only [Option.bind_eq_bind, Option.bind_some, hflag, htne, hr, hd.size, hk, ne_eq, not_false_eq_true,
        and_self, if_true, not_true_eq_false, if_false]
      rfl
    · rw [hu, hs.used]
      constructor
      · rintro ⟨rfl | hc, hct⟩
        · exact Or.inl rfl
        · exact Or.inr ⟨hc, hct⟩
      · rintro (rfl | ⟨hc, hct⟩)
        · exact ⟨Or.inl rfl, hne.symm⟩
        · exact ⟨Or.inr hc, hct⟩
    · intro c hc hct x hx hx'
      have hc₁ : Used bs₁ c := (hs.used c).mpr (Or.inr hc)
      have hcn : c ≠ ⟨a, n, false⟩ := by
        rintro rfl
        exact hs.fresh (inUse_iff.mpr ⟨_, hc, rfl⟩)
      exact (hd' c hc₁.1 x hx hx').trans ((hd₂ c hc₁.1 hcn x hx hx').trans (hs.data c hc x hx hx'))
    · have hfreed :
        ∀ i < n, (mmFree t.data (h₁.memcpy (a + blockSize) t.data (min t.size n))).mem (a + blockSize + i) =
          (h₁.memcpy (a + blockSize) t.data (min t.size n)).mem (a + blockSize + i) := fun i hi =>
        hd' _ hnew.1 _ (Nat.le_add_right _ _) (Nat.add_lt_add_left hi _)
      apply resized_bytes
      · intro i hi
        rw [hfreed i (by omega)]
        have hcopy :
          (h₁.memcpy (a + blockSize) t.data (min t.size n)).mem (a + blockSize + i) = h₁.mem (t.data + i) := by
          refine (if_pos ⟨Nat.le_add_right _ _, Nat.add_lt_add_left hi _⟩).trans ?_
          rw [Nat.add_sub_cancel_left]
        rw [hcopy]
        exact hs.data t ht _ (Nat.le_add_right _ _) (Nat.add_lt_add_left (by omega) _)
      · intro i hi hi'
        rw [hfreed i hi]
        have hkeep : (h₁.memcpy (a + blockSize) t.data (min t.size n)).mem (a + blockSize + i) =
            h₁.mem (a + blockSize + i) := if_neg (by omega)
        rw [hkeep, hs.zero i hi]

end CourseArchive.MmAlloc
