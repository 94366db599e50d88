import CourseArchive.MmAlloc.Malloc

/-! What `mm_malloc` does with a request of any size. -/

namespace CourseArchive.MmAlloc

open Lib Heap

def chain (h : Heap) : ℕ → ℕ → List ℕ
  | 0, _ => []
  | fuel + 1, a => if a = null then [] else a :: chain h fuel (h.get a .next)

def blocks (h : Heap) : List ℕ := chain h wordSize h.first

def slack (h : Heap) : ℕ :=
  match (blocks h).getLast? with
  | none => 0
  | some a => h.brk - (a + blockSize + h.get a .size)

def HasFit (h : Heap) (n : ℕ) : Prop := ∃ a ∈ blocks h, h.get a .isFree ≠ 0 ∧ n ≤ h.get a .size

/-- The `n + BLOCK_SIZE - 2 ^ 64` bytes that are left of a request that wraps around are more than the slack, and
`sbrk` refuses them. -/
def Refused (h : Heap) (n : ℕ) : Prop :=
  slack h < n + blockSize - wordSize ∧ (h.sbrk (n + blockSize - wordSize - slack h)).2 = false

def Sized (h : Heap) (n : ℕ) : Prop :=
  HasFit h n ∨ n + blockSize ≤ h.brk ∨ (h.first = null ∧ n + blockSize < wordSize) ∨ Refused h n

instance (h : Heap) (n : ℕ) : Decidable (HasFit h n) := inferInstanceAs (Decidable (∃ a ∈ blocks h, _))

instance (h : Heap) (n : ℕ) : Decidable (Refused h n) := inferInstanceAs (Decidable (_ ∧ _))

instance (h : Heap) (n : ℕ) : Decidable (Sized h n) := inferInstanceAs (Decidable (_ ∨ _))

def Started (h : Heap) (bs : List Blk) : Prop := bs = [] → h.base = h.brk

section

variable {h : Heap} {bs pre post : List Blk} {b l : Blk} {n : ℕ}

lemma mmMalloc_walk (hv : Valid h bs) (hn : n ≠ 0) (hne : bs ≠ []) :
    mmMalloc n h = (firstFit h n wordSize (headAddr null bs) (headAddr null bs)).bind fun
      | .found current => some (reuse h current n)
      | .missing last => some (append h last n) := by
  obtain ⟨b, hb⟩ := List.exists_mem_of_ne_nil bs hne
  rw [mmMalloc, if_neg hn, if_neg (hv.first_ne_null hb), hv.first]
  rfl

lemma Valid.length_le (hv : Valid h bs) : bs.length ≤ wordSize := by
  have hbrk := hv.brk_lt
  have := length_bound hv.bounds.1 hv.apart hv.inside
  simp only [blockSize, wordSize] at *
  omega

lemma mmMalloc_found (hv : Valid h bs) (hn : n ≠ 0) (hb : ∃ b ∈ bs, Fits n b) :
    ∃ pre b post h', bs = pre ++ [b] ++ post ∧ Fits n b ∧ (∀ x ∈ pre, ¬ Fits n x) ∧
      mmMalloc n h = some (b.addr + blockSize, h') ∧ SameGlobals h h' ∧
      Served h h' bs n b.addr (pre ++ carve b n ++ post) ∧
      h'.mem = h.mem.writes (reuseWords b.addr b.size (headAddr null post) n) := by
  obtain ⟨x, hx, hxn⟩ := hb
  rcases firstFit_spec (n := n) hv.linked hv.pos (headAddr null bs) wordSize hv.length_le with
    ⟨pre, b, post, rfl, hb, hno, hfit⟩ | ⟨hno, -⟩
  · have hsplit : pre ++ b :: post = pre ++ [b] ++ post := by simp
    have hrun := mmMalloc_walk hv hn (by simp)
    rw [hsplit] at hv
    obtain ⟨h', e, hg, hs, hw⟩ := reuse_served hv hb.1 hb.2
    refine ⟨pre, b, post, h', hsplit, hb, hno, ?_, hg, hsplit ▸ hs, hw⟩
    rw [hrun, hfit, Option.bind_some, ← e]
  · exact (hno x hx hxn).elim

lemma mmMalloc_missing (hv : Valid h (pre ++ [l])) (hn : n ≠ 0) (hno : ∀ b ∈ pre ++ [l], ¬ Fits n b) :
    mmMalloc n h = some (append h l.addr n) := by
  rw [mmMalloc_walk hv hn (by simp)]
  rcases firstFit_spec (n := n) hv.linked hv.pos (headAddr null (pre ++ [l])) wordSize hv.length_le with
    ⟨xs, b, ys, he, hb, -⟩ | ⟨-, hfit⟩
  · exact (hno b (by rw [he]; simp) hb).elim
  · rw [hfit, Option.bind_some, lastAddr_append]
    rfl

lemma mmMalloc_first (hv : Valid h []) (hn : n ≠ 0) : mmMalloc n h =
    match h.sbrk (add64 n blockSize) with
    | (h', true) => some (newFirst { h' with first := h.brk } n)
    | (h', false) => some (null, { h' with first := null }) := by
  have hfirst : h.first = null := hv.first
  exact (if_neg hn).trans (if_pos hfirst)

end

section Blocks

variable {h : Heap} {bs pre : List Blk} {l : Blk} {n : ℕ}

lemma Linked.chain_eq {prev fuel : ℕ} (hl : Linked h prev bs null) (hpos : ∀ b ∈ bs, 0 < b.addr)
    (hf : bs.length ≤ fuel) : chain h fuel (headAddr null bs) = bs.map Blk.addr := by
  induction bs generalizing prev fuel with
  | nil => cases fuel <;> simp [chain, headAddr]
  | cons b bs ih =>
    obtain ⟨fuel, rfl⟩ : ∃ m, fuel = m + 1 := ⟨fuel - 1, by simp at hf; omega⟩
    rw [chain, headAddr, if_neg (hpos b (by simp)).ne', hl.1.next,
      ih hl.2 (fun c hc => hpos c (by simp [hc])) (by simpa using hf)]
    rfl

lemma Valid.blocks_eq (hv : Valid h bs) : blocks h = bs.map Blk.addr := by
  rw [blocks, hv.first]
  exact hv.linked.chain_eq hv.pos hv.length_le

lemma Valid.get_header (hv : Valid h bs) {b : Blk} (hb : b ∈ bs) : ∃ p q, Header h p q b := by
  obtain ⟨pre, post, rfl⟩ := List.append_of_mem hb
  exact ⟨_, _, hv.header⟩

lemma Valid.exists_blocks (hv : Valid h bs) {P : ℕ → Prop} : (∃ a ∈ blocks h, P a) ↔ ∃ b ∈ bs, P b.addr := by
  simp only [hv.blocks_eq, List.mem_map, exists_exists_and_eq_and]

lemma Valid.hasFit_iff (hv : Valid h bs) : HasFit h n ↔ ∃ b ∈ bs, Fits n b := by
  rw [HasFit, hv.exists_blocks]
  apply exists_congr
  intro b
  apply and_congr_right
  intro hb
  obtain ⟨p, q, hd⟩ := hv.get_header hb
  rw [ne_eq, hd.isFree_iff, hd.size, Fits, Bool.not_eq_false]

lemma slack_nil (hv : Valid h []) : slack h = 0 := by
  rw [slack, hv.blocks_eq]
  rfl

lemma slack_append (hv : Valid h (pre ++ [l])) : slack h = h.brk - l.stop := by
  rw [slack, hv.blocks_eq, List.map_append, List.map_singleton, List.getLast?_concat]
  simp only [hv.header.size]
  rfl

end Blocks

section Sizes

variable {h : Heap} {bs pre : List Blk} {l : Blk} {n : ℕ}

lemma sbrk_refused (hb : h.brk ≤ h.limit.addr) (hs : (h.sbrk n).2 = false) :
    ∃ h', h.sbrk n = (h', false) ∧ Grown h h' 0 := by
  rw [Heap.sbrk] at hs ⊢
  split at hs
  next => cases hs
  next hn =>
    rw [if_neg hn]
    dsimp only at hs ⊢
    split at hs
    next => cases hs
    next hno =>
      rw [if_neg hno]
      exact ⟨_, rfl, rfl, rfl, rfl, rfl, rfl, hb⟩

lemma sbrk_negative (hb : h.base = h.brk) (hn : 2 ^ 63 ≤ n) (hw : n < wordSize) :
    (h.sbrk n).2 = false := by
  have hinc : ¬ ((h.base : ℤ) ≤ h.brk + increment n) := by
    rw [increment, if_neg (by omega)]
    simp only [wordSize] at *
    omega
  rw [Heap.sbrk, if_neg (by omega)]
  simp only [hinc, false_and, and_false, if_false]

lemma mmMalloc_first_spec (hv : Valid h []) (hn : n ≠ 0) (hpos : 0 < h.brk) (hlt : n + blockSize < 2 ^ 63) :
    (∃ h', mmMalloc n h = some (null, h') ∧ Grown h h' 0) ∨
      ∃ h', mmMalloc n h = some (h.brk + blockSize, h') ∧ Served h h' [] n h.brk [⟨h.brk, n, false⟩] := by
  have hadd : add64 n blockSize = n + blockSize := add64_of_lt (by
    simp only [blockSize, wordSize] at *
    omega)
  have hfirst : h.first = null := hv.first
  rw [mmMalloc_first hv hn, hadd]
  rcases sbrk_spec (h := h) (n := n + blockSize) (by simp) hlt hv.bounds.2 with ⟨h₀, e₀, hg⟩ | ⟨h₀, e₀, hg⟩
  · obtain ⟨h', e, hs⟩ := newFirst_served (h := { h₀ with first := h.brk }) (n := n) hpos
      (by simp only [hg.base, hv.bounds])
      (by simp only [hg.brk, blockSize]; omega)
      (by simp only [hg.brk, hg.limit, hg.le])
    refine Or.inr ⟨h', by rw [e₀, ← e], hs.valid, hs.used, hs.fresh, ?_, hs.zero, hs.base.trans hg.base⟩
    exact fun c hc => absurd hc.1 List.not_mem_nil
  · refine Or.inl ⟨_, by rw [e₀], ?_⟩
    exact ⟨hg.mem, hfirst.symm, hg.base, hg.limit, hg.brk, hg.le⟩

lemma wrapped_room {s : ℕ} (hs : s ≤ h.brk) (hn : n < wordSize) (hbrk : blockSize ≤ h.brk) (hlt : h.brk < 2 ^ 63)
    (hbig : h.brk < n + blockSize) :
    (s > sub64 (sub64 h.brk n) blockSize ↔ h.brk - s < n + blockSize - wordSize) := by
  simp only [sub64, blockSize, wordSize] at *
  omega

lemma mmMalloc_spec (hv : Valid h bs) (hpos : 0 < h.brk) (hst : n + blockSize ≤ h.brk ∨ Started h bs)
    (hn : n < wordSize) (hs : Sized h n) :
    (∃ h', mmMalloc n h = some (null, h') ∧ Grown h h' 0) ∨
      ∃ a h' bs', mmMalloc n h = some (a + blockSize, h') ∧ Served h h' bs n a bs' := by
  have hbrk := hv.brk_lt
  by_cases hn0 : n = 0
  · exact Or.inl ⟨h, by rw [mmMalloc, if_pos hn0], rfl, rfl, rfl, rfl, rfl, hv.bounds.2⟩
  by_cases hfit : ∃ b ∈ bs, Fits n b
  · obtain ⟨_, b, _, h', -, -, -, e, -, hs, -⟩ := mmMalloc_found hv hn0 hfit
    exact Or.inr ⟨_, h', _, e, hs⟩
  have hno : ∀ b ∈ bs, ¬ Fits n b := by simpa using hfit
  have hs := hs.resolve_left (hv.hasFit_iff.not.mpr hfit)
  rcases List.eq_nil_or_concat bs with rfl | ⟨pre, l, rfl⟩
  · by_cases hlt : n + blockSize < 2 ^ 63
    · rcases mmMalloc_first_spec hv hn0 hpos hlt with h' | ⟨h', e, hs⟩
      · exact Or.inl h'
      · exact Or.inr ⟨_, h', _, e, hs⟩
    · have hbase := hst.resolve_left (by omega) rfl
      have hfirst : h.first = null := hv.first
      have hno : (h.sbrk (add64 n blockSize)).2 = false := by
        rcases hs with hs | ⟨-, hs⟩ | ⟨hk, hs⟩
        · omega
        · rw [add64_of_lt hs]
          exact sbrk_negative hbase (by omega) hs
        · have hadd : add64 n blockSize = n + blockSize - wordSize := by
            rw [slack_nil hv] at hk
            simp only [add64, blockSize, wordSize] at *
            omega
          rw [slack_nil hv, Nat.sub_zero] at hs
          rw [hadd]
          exact hs
      obtain ⟨h₀, e₀, hg⟩ := sbrk_refused hv.bounds.2 hno
      refine Or.inl ⟨{ h₀ with first := null }, ?_, hg.mem, hfirst.symm, hg.base, hg.limit, hg.brk, hg.le⟩
      rw [mmMalloc_first hv hn0, e₀]
  · rw [List.concat_eq_append] at hv hno ⊢
    have hl := hv.inside l (by simp)
    rw [mmMalloc_missing hv hn0 hno]
    by_cases hle : n + blockSize ≤ h.brk
    · by_cases hroom : l.stop + blockSize + n ≤ h.brk
      · obtain ⟨h', e, -, hs, -⟩ := append_room hv hroom
        exact Or.inr ⟨_, h', _, congrArg some e, hs⟩
      · rcases append_grow hv hle (by omega) with ⟨h', e, -, ⟨bs', hs⟩, -⟩ | ⟨h', e, hg, -⟩
        · exact Or.inr ⟨_, h', bs', congrArg some e, hs⟩
        · exact Or.inl ⟨h', congrArg some e, hg⟩
    · have hfirst : h.first ≠ null := hv.first_ne_null (b := l) (by simp)
      obtain ⟨hk, hno⟩ := (hs.resolve_left hle).resolve_left fun hs => hfirst hs.1
      rw [slack_append hv] at hk hno
      have hgt : l.stop > sub64 (sub64 h.brk n) blockSize := by
        apply (wrapped_room hl.2 hn _ hbrk (by omega)).mpr hk
        simp only [Blk.stop] at hl
        omega
      have hneed : sub64 (add64 n blockSize) (h.brk - l.stop) = n + blockSize - wordSize - (h.brk - l.stop) := by
        simp only [add64, sub64, blockSize, wordSize] at *
        omega
      obtain ⟨h₀, e₀, hg⟩ := sbrk_refused hv.bounds.2 hno
      refine Or.inl ⟨h₀, congrArg some ?_, hg⟩
      rw [append, (append_ends hv).1, (append_ends hv).2, if_pos hgt, hneed, e₀]

lemma sbrk_granted (hb : h.brk ≤ h.limit.addr) (hn : n < blockSize) (hs : (h.sbrk n).2 ≠ false) :
    ∃ h', h.sbrk n = (h', true) ∧ Grown h h' n := by
  by_cases hn0 : n = 0
  · rw [hn0]
    exact ⟨h, rfl, rfl, rfl, rfl, rfl, rfl, hb⟩
  · rcases sbrk_spec (Nat.pos_of_ne_zero hn0) (by simp only [blockSize] at hn; omega) hb with h' | ⟨h', e, -⟩
    · exact h'
    · rw [e] at hs
      exact (hs rfl).elim

lemma mmMalloc_outside (hv : Valid h bs) (hn : n < wordSize) (hs : ¬ Sized h n) :
    ∃ a h', mmMalloc n h = some (a + blockSize, h') ∧ h'.brk < a + blockSize + n := by
  have hbrk := hv.brk_lt
  simp only [Sized, not_or, not_and, not_le, not_lt] at hs
  obtain ⟨hfit, hle, hsmall, hrefuse⟩ := hs
  have hno : ∀ b ∈ bs, ¬ Fits n b := by simpa using hv.hasFit_iff.not.mp hfit
  have hn0 : n ≠ 0 := by
    rintro rfl
    rcases List.eq_nil_or_concat bs with rfl | ⟨pre, l, rfl⟩
    · exact absurd (hsmall hv.first) (by decide)
    · have := (hv.inside l (by simp)).2
      simp only [Blk.stop] at this
      omega
  rcases List.eq_nil_or_concat bs with rfl | ⟨pre, l, rfl⟩
  · have hbig := hsmall hv.first
    rw [Refused, slack_nil hv, Nat.sub_zero, not_and] at hrefuse
    have hadd : add64 n blockSize = n + blockSize - wordSize := by
      simp only [add64, blockSize, wordSize] at *
      omega
    obtain ⟨h₀, e₀, hg⟩ := sbrk_granted (h := h) (n := n + blockSize - wordSize) hv.bounds.2
      (by simp only [blockSize, wordSize] at *; omega) (by
        rcases Nat.eq_zero_or_pos (n + blockSize - wordSize) with h0 | h0
        · rw [h0]
          exact Bool.noConfusion
        · exact hrefuse h0)
    obtain ⟨h', e, -, hg', -⟩ := newFirst_writes (h := { h₀ with first := h.brk }) hbrk hn
    refine ⟨h.brk, h', ?_, ?_⟩
    · rw [mmMalloc_first hv hn0, hadd, e₀, ← e]
    · rw [hg'.brk]
      dsimp only
      rw [hg.brk]
      simp only [blockSize, wordSize] at *
      omega
  · rw [List.concat_eq_append] at hv hno
    have hl := hv.inside l (by simp)
    have hbig : blockSize ≤ h.brk := by
      simp only [Blk.stop] at hl
      omega
    rw [mmMalloc_missing hv hn0 hno, append, (append_ends hv).1, (append_ends hv).2]
    split
    next hgt =>
      rw [wrapped_room hl.2 hn hbig hbrk hle] at hgt
      rw [Refused, slack_append hv, not_and] at hrefuse
      have hneed : sub64 (add64 n blockSize) (h.brk - l.stop) = n + blockSize - wordSize - (h.brk - l.stop) := by
        simp only [add64, sub64, blockSize, wordSize] at *
        omega
      obtain ⟨h₀, e₀, hg⟩ := sbrk_granted hv.bounds.2 (by simp only [blockSize, wordSize] at *; omega)
        (hrefuse hgt)
      obtain ⟨h', e, -, hg', -⟩ := place_writes (hg.valid hv) hn
      refine ⟨l.stop, h', ?_, ?_⟩
      · rw [hneed, e₀, ← e]
      · rw [hg'.brk, hg.brk]
        simp only [blockSize, wordSize] at *
        omega
    next =>
      obtain ⟨h', e, -, hg', -⟩ := place_writes hv hn
      refine ⟨l.stop, h', congrArg some e, ?_⟩
      rw [hg'.brk]
      omega

end Sizes

end CourseArchive.MmAlloc
