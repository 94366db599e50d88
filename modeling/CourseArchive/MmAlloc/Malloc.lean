import CourseArchive.MmAlloc.BlockList

/-! `mm_malloc` keeps the heap well formed: the search, the reuse of a free block and the append. -/

namespace CourseArchive.MmAlloc

open Lib Heap

def Fits (n : ℕ) (b : Blk) : Prop := b.free = true ∧ n ≤ b.size

instance (n : ℕ) (b : Blk) : Decidable (Fits n b) := inferInstanceAs (Decidable (_ ∧ _))

lemma firstFit_spec {h : Heap} {n prev : ℕ} {bs : List Blk} (hl : Linked h prev bs null)
    (hpos : ∀ b ∈ bs, 0 < b.addr) (last fuel : ℕ) (hf : bs.length ≤ fuel) :
    (∃ pre b post, bs = pre ++ b :: post ∧ Fits n b ∧ (∀ x ∈ pre, ¬ Fits n x) ∧
      firstFit h n fuel (headAddr null bs) last = some (.found b.addr)) ∨
    (∀ x ∈ bs, ¬ Fits n x) ∧
      firstFit h n fuel (headAddr null bs) last = some (.missing (lastAddr last bs)) := by
  induction bs generalizing prev last fuel with
  | nil => cases fuel <;> simp [firstFit, headAddr, lastAddr]
  | cons b bs ih =>
    obtain ⟨fuel, rfl⟩ : ∃ m, fuel = m + 1 := ⟨fuel - 1, by simp at hf; omega⟩
    have hne : b.addr ≠ null := (hpos b (by simp)).ne'
    have hfree : h.get b.addr .isFree ≠ 0 ↔ b.free = true := by rw [ne_eq, hl.1.isFree_iff, Bool.not_eq_false]
    by_cases hc : Fits n b
    · left
      refine ⟨[], b, bs, rfl, hc, by simp, ?_⟩
      rw [Fits] at hc
      simp only [firstFit, headAddr, if_neg hne, hfree, hl.1.size, if_pos hc]
    · have hstep : firstFit h n (fuel + 1) (headAddr null (b :: bs)) last =
          firstFit h n fuel (headAddr null bs) b.addr := by
        rw [Fits] at hc
        simp only [firstFit, headAddr, if_neg hne, hfree, hl.1.size, if_neg hc, hl.1.next]
      rw [hstep]
      rcases ih hl.2 (fun c hcm => hpos c (by simp [hcm])) b.addr fuel (by simpa using hf) with
        ⟨pre, c, post, rfl, hcn, hno, he⟩ | ⟨hno, he⟩
      · exact Or.inl ⟨b :: pre, c, post, rfl, hcn, List.forall_mem_cons.mpr ⟨hc, hno⟩, he⟩
      · exact Or.inr ⟨List.forall_mem_cons.mpr ⟨hc, hno⟩, he⟩

def rest (b : Blk) (n : ℕ) : List Blk :=
  if blockSize ≤ b.size - n then [⟨b.data + n, b.size - n - blockSize, true⟩] else []

def carve (b : Blk) (n : ℕ) : List Blk := ⟨b.addr, n, false⟩ :: rest b n

lemma mem_rest {b c : Blk} {n : ℕ} (h : c ∈ rest b n) :
    b.addr + blockSize + n = c.addr ∧ (n ≤ b.size → c.stop = b.stop) ∧ c.free = true := by
  simp only [rest] at h
  split at h
  next hs =>
    obtain rfl := List.mem_singleton.mp h
    refine ⟨rfl, fun hn => ?_, rfl⟩
    simp only [Blk.stop, Blk.data, blockSize] at *
    omega
  next => simp at h

def Field.word (f : Field) (a v : ℕ) : Memory.Word := ⟨a + f.offset, f.width, v⟩

def splitWords (a s q n : ℕ) : List Memory.Word :=
  if blockSize ≤ s - n then
    let r := a + blockSize + n
    Field.next.word r q :: (if q = null then [] else [Field.prev.word q r]) ++
      [Field.next.word a r, Field.prev.word r a, Field.size.word r (s - n - blockSize), Field.isFree.word r 1,
        Field.ptr.word r (r + blockSize)]
  else []

def reuseWords (a s q n : ℕ) : List Memory.Word :=
  Field.isFree.word a 0 :: splitWords a s q n ++ [Field.size.word a n, ⟨a + blockSize, n, 0⟩]

def placeWords (l e n : ℕ) : List Memory.Word :=
  [Field.next.word l e, Field.prev.word e l, Field.next.word e null, Field.isFree.word e 0, Field.size.word e n,
    Field.ptr.word e (e + blockSize), ⟨e + blockSize, n, 0⟩]

lemma Relinked.mem {h h' : Heap} {a v : ℕ} (e : (if a ≠ null then h.set a .prev v else h) = h') :
    h'.mem = h.mem.writes (if a = null then [] else [Field.prev.word a v]) := by
  rw [← e]
  by_cases ha : a = null
  · rw [if_pos ha, if_neg (not_not.mpr ha)]
    rfl
  · rw [if_neg ha, if_pos ha]
    rfl

lemma split_spec {h : Heap} {a s n q : ℕ} (hsize : h.get a .size = s) (hptr : h.get a .ptr = a + blockSize)
    (hnext : h.get a .next = q) (hs : n + blockSize ≤ s) (ha : a + blockSize + s < 2 ^ 63)
    (hq : q = null ∨ a + blockSize + s ≤ q ∧ q < 2 ^ 63) :
    ∃ h', split h a n = h' ∧ SameGlobals h h' ∧ h'.get a .next = a + blockSize + n ∧
      (∀ f, Field.next ≠ f → h'.get a f = h.get a f) ∧
      Header h' a q ⟨a + blockSize + n, s - n - blockSize, true⟩ ∧
      (q ≠ null → h'.get q .prev = a + blockSize + n ∧ ∀ f, Field.prev ≠ f → h'.get q f = h.get q f) ∧
      (∀ x, (x + blockSize ≤ a ∨ a + blockSize + s ≤ x) → (q = null ∨ Apart q x) → SameHeader h h' x) ∧
      (∀ x, (x < a ∨ a + blockSize + s ≤ x) → (q = null ∨ Outside q x) → h'.mem x = h.mem x) ∧
      h'.mem = h.mem.writes (splitWords a s q n) := by
  simp only [blockSize] at *
  have hadd : add64 (a + 40) n = a + 40 + n := add64_of_lt (by simp only [wordSize]; omega)
  have hadd' : add64 (a + 40 + n) 40 = a + 40 + n + 40 := add64_of_lt (by simp only [wordSize]; omega)
  have hsub : sub64 s n = s - n := sub64_of_le (by omega) (by simp only [wordSize]; omega)
  have hsub' : sub64 (s - n) 40 = s - n - 40 := sub64_of_le (by omega) (by simp only [wordSize]; omega)
  obtain ⟨h₁, e₁, w₁⟩ := set_word h (a + 40 + n) .next q (by decide) (by simp only [null] at hq; omega)
  obtain ⟨h₂, e₂, w₂⟩ := set_unless_null h₁ q (a + 40 + n) (by omega)
  obtain ⟨h₃, e₃, w₃⟩ := set_word h₂ a .next (a + 40 + n) (by decide) (by omega)
  obtain ⟨h₄, e₄, w₄⟩ := set_word h₃ (a + 40 + n) .prev a (by decide) (by omega)
  obtain ⟨h₅, e₅, w₅⟩ := set_word h₄ (a + 40 + n) .size (s - n - 40) (by decide) (by omega)
  obtain ⟨h₆, e₆, w₆⟩ := set_flag h₅ (a + 40 + n) 1 (by decide)
  obtain ⟨h₇, e₇, w₇⟩ := set_word h₆ (a + 40 + n) .ptr (a + 40 + n + 40) (by decide) (by omega)
  have apart_c : ∀ x, x + 40 ≤ a ∨ a + 40 + s ≤ x ∨ x = a → Apart (a + 40 + n) x := fun x hx => by
    simp only [Apart, blockSize]
    omega
  have g₂ : ∀ x f, Apart (a + 40 + n) x → (q = null ∨ Apart q x) → h₂.get x f = h.get x f := by
    intro x f hx hqx
    rw [w₂.apart hqx, w₁.apart x f hx]
  have apart_q : q = null ∨ Apart q a := by
    simp only [Apart, blockSize]
    omega
  have ga : ∀ f, Field.next ≠ f → h₃.get a f = h.get a f := fun f hf => by
    rw [w₃.other f hf, g₂ a f (apart_c a (by simp)) apart_q]
  have tail : ∀ x f, Apart (a + 40 + n) x → h₇.get x f = h₃.get x f := fun x f hx => by
    rw [w₇.apart x f hx, w₆.apart x f hx, w₅.apart x f hx, w₄.apart x f hx]
  refine ⟨h₇, ?_, ?_, ?_, ?_, ⟨?_, ?_, ?_, ?_, ?_⟩, ?_, ?_, ?_, ?_⟩
  · rw [split, hsize, hsub, if_pos (by simp only [blockSize]; omega), hptr, hadd]
    dsimp only
    rw [hnext, e₁, w₁.apart a _ (apart_c a (by simp)), hnext, e₂, e₃, e₄,
      w₄.apart a _ (apart_c a (by simp)), ga .size (by decide), hsize, hsub, hsub', e₅, e₆, hadd', e₇]
  · exact w₁.globals.trans (w₂.globals.trans (w₃.globals.trans (w₄.globals.trans
      (w₅.globals.trans (w₆.globals.trans w₇.globals)))))
  · rw [tail a _ (apart_c a (by simp)), w₃.value]
  · intro f hf
    rw [tail a f (apart_c a (by simp)), ga f hf]
  · rw [w₇.other _ (by decide), w₆.other _ (by decide), w₅.value]
  · rw [w₇.other _ (by decide), w₆.other _ (by decide), w₅.other _ (by decide), w₄.other _ (by decide),
      w₃.apart _ _ (by simp only [Apart, blockSize]; omega), w₂.apart (by simp only [Apart, blockSize]; omega),
      w₁.value]
  · rw [w₇.other _ (by decide), w₆.other _ (by decide), w₅.other _ (by decide), w₄.value]
  · rw [w₇.other _ (by decide), w₆.value]
    rfl
  · rw [w₇.value]
    rfl
  · intro hq0
    have hqc : Apart (a + 40 + n) q := apart_c q (by omega)
    have hqa : Apart a q := by
      simp only [Apart, blockSize]
      omega
    refine ⟨?_, fun f hf => ?_⟩
    · rw [tail q _ hqc, w₃.apart q _ hqa, (w₂.wrote hq0).value]
    · rw [tail q f hqc, w₃.apart q f hqa, (w₂.wrote hq0).other f hf, w₁.apart q f hqc]
  · intro x hx hqx f
    have hxa : Apart a x := by
      simp only [Apart, blockSize]
      omega
    have hxc := apart_c x (by omega)
    rw [tail x f hxc, w₃.apart x f hxa, g₂ x f hxc hqx]
  · intro x hx hqx
    have hxa : Outside a x := by
      simp only [Outside, blockSize]
      omega
    have hxc : Outside (a + 40 + n) x := by
      simp only [Outside, blockSize]
      omega
    rw [w₇.bytes x hxc, w₆.bytes x hxc, w₅.bytes x hxc, w₄.bytes x hxc, w₃.bytes x hxa, w₂.bytes hqx,
      w₁.bytes x hxc]
  · have hlink : h₂.mem = h.mem.writes
        (Field.next.word (a + 40 + n) q :: if q = null then [] else [Field.prev.word q (a + 40 + n)]) := by
      rw [Relinked.mem e₂, ← e₁]
      rfl
    rw [splitWords, if_pos (by simp only [blockSize]; omega), Memory.writes_append, ← hlink, ← e₇, ← e₆,
      ← e₅, ← e₄,
      ← e₃]
    rfl

namespace Laid

variable {h : Heap} {pre post : List Blk} {b : Blk} (hv : Laid h (pre ++ b :: post))

include hv

lemma apart_around {x : Blk} (hx : x ∈ pre ∨ x ∈ post) : Apart b.addr x.addr := by
  obtain ⟨hpre, hpost, -⟩ := hv.around
  rcases hx with hx | hx
  · have := hpre x hx
    simp only [Apart, Blk.stop] at *
    omega
  · have := hpost x hx
    simp only [Apart, Blk.stop] at *
    omega

lemma next_beyond : headAddr null post = null ∨ b.stop ≤ headAddr null post ∧ headAddr null post < 2 ^ 63 := by
  cases post with
  | nil => exact Or.inl rfl
  | cons y post =>
    have := hv.stop_lt (b := y) (by simp)
    refine Or.inr ⟨hv.around.2.1 y (by simp), ?_⟩
    simp only [headAddr, Blk.stop] at *
    omega

lemma next_outside {x : Blk} (hx : x ∈ pre ++ post) {i : ℕ} (hi : x.data ≤ i) (hi' : i < x.stop) :
    headAddr null post = null ∨ Outside (headAddr null post) i := by
  cases post with
  | nil => exact Or.inl rfl
  | cons y post =>
    have hxm : x ∈ pre ++ b :: y :: post := by
      simp only [List.mem_append, List.mem_cons] at hx ⊢
      tauto
    exact Or.inr (hv.data_outside (b := y) (by simp) hxm hi hi')

lemma data_around {x : Blk} (hx : x ∈ pre ++ post) {i : ℕ} (hi : x.data ≤ i) (hi' : i < x.stop) :
    i < b.addr ∨ b.stop ≤ i := by
  obtain ⟨hpre, hpost, -⟩ := hv.around
  rcases List.mem_append.mp hx with hx | hx
  · exact Or.inl (hi'.trans_le (hpre x hx))
  · have := hpost x hx
    simp only [Blk.data] at hi
    omega

lemma header_around {x : Blk} (hx : x ∈ pre ∨ x ∈ post.tail) :
    (x.addr + blockSize ≤ b.addr ∨ b.stop ≤ x.addr) ∧
      (headAddr null post = null ∨ Apart (headAddr null post) x.addr) := by
  obtain ⟨hpre, hpost, hcross, -, hpp⟩ := hv.around
  rcases hx with hx | hx
  · refine ⟨Or.inl ((Nat.le_add_right _ _).trans (hpre x hx)), ?_⟩
    cases post with
    | nil => exact Or.inl rfl
    | cons y post => exact Or.inr (Or.inr ((Nat.le_add_right _ _).trans (hcross x hx y (by simp))))
  · cases post with
    | nil => simp at hx
    | cons y post =>
      exact ⟨Or.inr (hpost x (List.mem_of_mem_tail hx)),
        Or.inr (Or.inl ((Nat.le_add_right _ _).trans ((List.pairwise_cons.mp hpp).1 x hx)))⟩

end Laid

structure Parted (h h₁ h₂ : Heap) (pre post : List Blk) (b : Blk) (rs : List Blk) : Prop where
  globals : SameGlobals h h₂
  next : h₂.get b.addr .next = headAddr (headAddr null post) rs
  fields : ∀ f, Field.next ≠ f → h₂.get b.addr f = h₁.get b.addr f
  rest : Linked h₂ b.addr rs (headAddr null post)
  back : ∀ y ∈ post.head?, h₂.get y.addr .prev = lastAddr b.addr rs ∧
    ∀ f, Field.prev ≠ f → h₂.get y.addr f = h.get y.addr f
  headers : ∀ x, (x ∈ pre ∨ x ∈ post.tail) → SameHeader h h₂ x.addr
  data : ∀ x ∈ pre ++ post, SameData h h₂ x

section Part

variable {h h₁ : Heap} {pre post : List Blk} {b : Blk} {n : ℕ} (hv : Laid h (pre ++ b :: post))
  (w₁ : Wrote h h₁ b.addr .isFree 0) (hn : n ≤ b.size)

include hv w₁ hn

lemma split_room (hs : blockSize ≤ b.size - n) :
    ∃ h₂, split h₁ b.addr n = h₂ ∧ Parted h h₁ h₂ pre post b (rest b n) ∧
      h₂.mem = h₁.mem.writes (splitWords b.addr b.size (headAddr null post) n) := by
  have hd := hv.header
  obtain ⟨h₂, e, hg, hn₂, hs₂, hc₂, hq₂, hx₂, hm₂, hw₂⟩ := split_spec (n := n) (q := headAddr null post)
    ((w₁.other _ (by decide)).trans hd.size) ((w₁.other _ (by decide)).trans hd.ptr)
    ((w₁.other _ (by decide)).trans hd.next) (by simp only [blockSize] at hs ⊢; omega) (hv.stop_lt (by simp))
    hv.next_beyond
  simp only [rest, if_pos hs]
  refine ⟨h₂, e, ⟨w₁.globals.trans hg, hn₂, hs₂, ⟨hc₂, trivial⟩, ?_, ?_, ?_⟩, hw₂⟩
  · intro y hy
    obtain ⟨post, rfl⟩ : ∃ ys, post = y :: ys := List.head?_eq_some_iff.mp hy
    obtain ⟨hp, ho⟩ := hq₂ (hv.pos y (by simp)).ne'
    exact ⟨hp, fun f hf => (ho f hf).trans (w₁.apart _ f (hv.apart_around (Or.inr (by simp))))⟩
  · intro x hx f
    obtain ⟨hb, hq⟩ := hv.header_around hx
    rw [hx₂ x.addr hb hq f, w₁.apart x.addr f (hv.apart_around (hx.imp_right List.mem_of_mem_tail))]
  · intro x hx i hi hi'
    have hb := hv.data_around hx hi hi'
    have hout : Outside b.addr i := hb.imp_right (le_trans (Nat.le_add_right _ _))
    rw [hm₂ i hb (hv.next_outside hx hi hi'), w₁.bytes i hout]

lemma split_whole (hs : ¬ blockSize ≤ b.size - n) :
    ∃ h₂, split h₁ b.addr n = h₂ ∧ Parted h h₁ h₂ pre post b (rest b n) ∧
      h₂.mem = h₁.mem.writes (splitWords b.addr b.size (headAddr null post) n) := by
  have hd := hv.header
  have hlt := hv.stop_lt (b := b) (by simp)
  have e : split h₁ b.addr n = h₁ := by
    rw [split, w₁.other _ (by decide), hd.size,
      sub64_of_le hn (by simp only [Blk.stop, wordSize] at hlt ⊢; omega), if_neg hs]
  simp only [rest, splitWords, if_neg hs]
  refine ⟨h₁, e, ⟨w₁.globals, (w₁.other _ (by decide)).trans hd.next, fun f _ => rfl, trivial, ?_, ?_, ?_⟩, rfl⟩
  · intro y hy
    obtain ⟨post, rfl⟩ : ∃ ys, post = y :: ys := List.head?_eq_some_iff.mp hy
    have hy₁ := fun f => w₁.apart y.addr f (hv.apart_around (Or.inr (by simp)))
    refine ⟨?_, fun f _ => hy₁ f⟩
    rw [hy₁, ((linked_append _ _).mp hv.linked).2.2.1.prev]
    rfl
  · exact fun x hx f => w₁.apart x.addr f (hv.apart_around (hx.imp_right List.mem_of_mem_tail))
  · exact fun x hx i hi hi' => w₁.bytes i ((hv.data_around hx hi hi').imp_right (le_trans (Nat.le_add_right _ _)))

lemma split_rest : ∃ h₂, split h₁ b.addr n = h₂ ∧ Parted h h₁ h₂ pre post b (rest b n) ∧
    h₂.mem = h₁.mem.writes (splitWords b.addr b.size (headAddr null post) n) := by
  by_cases hs : blockSize ≤ b.size - n
  · exact split_room hv w₁ hn hs
  · exact split_whole hv w₁ hn hs

end Part

lemma reuse_spec {h : Heap} {pre post : List Blk} {b : Blk} {n : ℕ} (hv : Valid h (pre ++ [b] ++ post))
    (hb : b.free = true) (hn : n ≤ b.size) :
    ∃ h', reuse h b.addr n = (b.data, h') ∧ Valid h' (pre ++ carve b n ++ post) ∧ SameGlobals h h' ∧
      (∀ x ∈ pre ++ post, SameData h h' x) ∧ (∀ i < n, h'.mem (b.data + i) = 0) ∧
      h'.mem = h.mem.writes (reuseWords b.addr b.size (headAddr null post) n) := by
  have hv' : Valid h (pre ++ b :: post) := by simpa using hv
  have hd := hv'.header
  obtain ⟨hpre, hpost, -⟩ := hv'.around
  have hlt : b.stop < 2 ^ 63 := hv.stop_lt (by simp)
  obtain ⟨h₁, e₁, w₁⟩ := set_flag h b.addr 0 (by decide)
  obtain ⟨h₂, e₂, ⟨hg, hn₂, hs₂, hr₂, hq₂, hx₂, hm₂⟩, hw₂⟩ := split_rest hv'.toLaid w₁ hn
  obtain ⟨h₃, e₃, w₃⟩ := set_word h₂ b.addr .size n (by decide) (by simp only [Blk.stop] at hlt; omega)
  have hptr : h₃.get b.addr .ptr = b.data := by
    rw [w₃.other _ (by decide), hs₂ _ (by decide), w₁.other _ (by decide), hd.ptr]
  -- neither the new size nor the zeroes reach another header
  have hfar : ∀ x f, x + blockSize ≤ b.addr ∨ b.addr + blockSize + n ≤ x →
      (h₃.memset b.data 0 n).get x f = h₂.get x f := by
    intro x f hx
    rw [get_memset_apart (by simp only [Blk.data]; omega), w₃.apart x f (by simp only [Apart]; omega)]
  have hown : ∀ f, (h₃.memset b.data 0 n).get b.addr f = h₃.get b.addr f := fun f =>
    get_memset_apart (by simp only [Blk.data]; omega)
  have hx : ∀ x ∈ pre, x.addr + blockSize ≤ b.addr := fun x hx =>
    (Nat.le_add_right _ x.size).trans (hpre x hx)
  have hy : ∀ y ∈ post, b.addr + blockSize + n ≤ y.addr := fun y hy =>
    (Nat.add_le_add_left hn _).trans (hpost y hy)
  have hg' : SameGlobals h (h₃.memset b.data 0 n) := (hg.trans w₃.globals).trans ⟨rfl, rfl, rfl, rfl⟩
  refine ⟨h₃.memset b.data 0 n, ?_, ⟨hv.replace ?_ ?_ ?_ ?_ hg', ?_⟩, hg', ?_, ?_, ?_⟩
  · simp only [reuse, e₁, e₂, e₃, hptr, w₃.value, hown]
  · intro c hc
    refine ⟨b, by simp, b, by simp, ?_⟩
    rcases List.mem_cons.mp hc with rfl | hc
    · simp only [Blk.stop]
      omega
    · obtain ⟨ha, hst, -⟩ := mem_rest hc
      exact ⟨by omega, (hst hn).le⟩
  · exact fun next => rfl
  · refine List.pairwise_cons.mpr ⟨fun c hc => (mem_rest hc).1.le, ?_⟩
    simp only [rest]
    split <;> simp
  · have hl := (linked_append pre (b :: post)).mp hv'.linked
    rw [linked_append, linked_append]
    refine ⟨⟨?_, ⟨?_, ?_, ?_, ?_, ?_⟩, ?_⟩, ?_⟩
    · apply hl.1.frame
      exact fun x hxp f => (hfar x.addr f (Or.inl (hx x hxp))).trans (hx₂ x (Or.inl hxp) f)
    · rw [hown, w₃.value]
    · rw [hown, w₃.other _ (by decide), hn₂]
    · rw [hown, w₃.other _ (by decide), hs₂ _ (by decide), w₁.other _ (by decide), hd.prev]
    · rw [hown, w₃.other _ (by decide), hs₂ _ (by decide), w₁.value]
      rfl
    · rw [hown, hptr]
      rfl
    · apply hr₂.frame
      exact fun c hc f => hfar c.addr f (Or.inr (mem_rest hc).1.le)
    · rw [lastAddr_append]
      apply hl.2.2.reprev
      · intro y hyp
        have hf := fun f => hfar y.addr f (Or.inr (hy y (List.mem_of_mem_head? hyp)))
        exact ⟨(hf _).trans (hq₂ y hyp).1, fun f hne => (hf f).trans ((hq₂ y hyp).2 f hne)⟩
      · intro y hyp f
        rw [hfar y.addr f (Or.inr (hy y (List.mem_of_mem_tail hyp))), hx₂ y (Or.inr hyp) f]
  · have hm := hv'.merged
    simp only [List.isChain_append, List.isChain_cons, List.head?_cons, Option.mem_some_iff, forall_eq'] at hm
    simp only [carve, rest]
    split <;>
      simp only [List.append_assoc, List.isChain_append, List.isChain_cons, List.head?_cons, List.cons_append,
        List.nil_append, Option.mem_some_iff, forall_eq']
    all_goals simp_all
  · intro x hxm i hi hi'
    have hout : i < b.addr ∨ b.addr + blockSize + n ≤ i := by
      rcases List.mem_append.mp hxm with hxm | hxm
      · exact Or.inl (hi'.trans_le (hpre x hxm))
      · have := hy x hxm
        simp only [Blk.data] at hi
        omega
    rw [mem_memset_outside (by simp only [Blk.data]; omega), w₃.bytes i (by simp only [Outside]; omega),
      hm₂ x hxm i hi hi']
  · exact fun i hi => mem_memset ⟨Nat.le_add_right _ _, Nat.add_lt_add_left hi _⟩
  · rw [reuseWords, Memory.writes_append, Memory.writes_cons]
    change (h₃.mem.fill b.data n 0) = _
    rw [Memory.fill_zero, ← e₃]
    exact congrArg (fun m : Memory => m.writes [Field.size.word b.addr n, ⟨b.data, n, 0⟩])
      (hw₂.trans (by rw [← e₁]; rfl))

structure Grown (h h' : Heap) (n : ℕ) : Prop where
  mem : h'.mem = h.mem
  first : h'.first = h.first
  base : h'.base = h.base
  limit : h'.limit = h.limit
  brk : h'.brk = h.brk + n
  le : h.brk + n ≤ h.limit.addr

lemma sbrk_spec {h : Heap} {n : ℕ} (hn : 0 < n) (hlt : n < 2 ^ 63) (hb : h.brk ≤ h.limit.addr) :
    (∃ h', h.sbrk n = (h', true) ∧ Grown h h' n) ∨ ∃ h', h.sbrk n = (h', false) ∧ Grown h h' 0 := by
  simp only [Heap.sbrk, if_neg hn.ne', increment, if_pos hlt]
  split
  next hs =>
    left
    refine ⟨_, rfl, rfl, rfl, rfl, rfl, ?_, ?_⟩
    · simp only
      omega
    · omega
  next => exact Or.inr ⟨_, rfl, rfl, rfl, rfl, rfl, rfl, hb⟩

lemma Grown.get {h h' : Heap} {n : ℕ} (hg : Grown h h' n) (a : ℕ) (f : Field) : h'.get a f = h.get a f := by
  simp only [Heap.get, hg.mem]

lemma Grown.valid {h h' : Heap} {n : ℕ} {bs : List Blk} (hg : Grown h h' n) (hv : Valid h bs) : Valid h' bs := by
  refine ⟨⟨hv.linked.frame fun b _ => hg.get b.addr, hg.first.trans hv.first, hv.apart, ?_, hv.pos, ?_⟩,
    hv.merged⟩
  · intro b hb
    rw [hg.base, hg.brk]
    exact ⟨(hv.inside b hb).1, (hv.inside b hb).2.trans (Nat.le_add_right _ _)⟩
  · rw [hg.base, hg.brk, hg.limit]
    exact ⟨hv.bounds.1.trans (Nat.le_add_right _ _), hg.le⟩

lemma place_writes {h : Heap} {pre : List Blk} {l : Blk} {n : ℕ} (hv : Valid h (pre ++ [l])) (hn : n < wordSize) :
    ∃ h', place h l.addr n = (l.stop + blockSize, h') ∧ Linked h' null (pre ++ [l] ++ [⟨l.stop, n, false⟩]) null ∧
      SameGlobals h h' ∧ (∀ x ∈ pre ++ [l], SameData h h' x) ∧ (∀ i < n, h'.mem (l.stop + blockSize + i) = 0) ∧
      h'.mem = h.mem.writes (placeWords l.addr l.stop n) := by
  have hlt : l.stop < 2 ^ 63 := hv.stop_lt (by simp)
  have hd := hv.header
  have hstop : add64 (h.get l.addr .ptr) (h.get l.addr .size) = l.stop := by
    rw [hd.ptr, hd.size]
    exact add64_of_lt (by simp only [Blk.data, Blk.stop, blockSize, wordSize] at *; omega)
  have hadd : add64 l.stop blockSize = l.stop + blockSize := add64_of_lt (by
    simp only [wordSize, blockSize] at *
    omega)
  have hpre : ∀ x ∈ pre, x.stop ≤ l.addr := hv.around.1
  simp only [blockSize] at hadd
  obtain ⟨h₁, e₁, w₁⟩ := set_word h l.addr .next l.stop (by decide) (by omega)
  obtain ⟨h₂, e₂, w₂⟩ := set_word h₁ l.stop .prev l.addr (by decide) (by simp only [Blk.stop] at hlt; omega)
  obtain ⟨h₃, e₃, w₃⟩ := set_word h₂ l.stop .next null (by decide) (by decide)
  obtain ⟨h₄, e₄, w₄⟩ := set_flag h₃ l.stop 0 (by decide)
  obtain ⟨h₅, e₅, w₅⟩ := set_word h₄ l.stop .size n (by decide) hn
  obtain ⟨h₆, e₆, w₆⟩ := set_word h₅ l.stop .ptr (l.stop + 40) (by decide) (by omega)
  have hsize : h₆.get l.stop .size = n := (w₆.other _ (by decide)).trans w₅.value
  have hold : ∀ x f, x + blockSize ≤ l.stop → (h₆.memset (l.stop + 40) 0 n).get x f = h₁.get x f := by
    intro x f hx
    have ha : Apart l.stop x := Or.inr hx
    rw [get_memset_apart (by omega), w₆.apart x f ha, w₅.apart x f ha, w₄.apart x f ha, w₃.apart x f ha,
      w₂.apart x f ha]
  have hnew : ∀ f, (h₆.memset (l.stop + 40) 0 n).get l.stop f = h₆.get l.stop f := fun f =>
    get_memset_apart (Or.inr le_rfl)
  have hlstop : l.addr + blockSize ≤ l.stop := Nat.le_add_right _ _
  have hl₁ := fun f => hold l.addr f hlstop
  have hg : SameGlobals h (h₆.memset (l.stop + 40) 0 n) :=
    w₁.globals.trans (w₂.globals.trans (w₃.globals.trans (w₄.globals.trans (w₅.globals.trans
      (w₆.globals.trans ⟨rfl, rfl, rfl, rfl⟩)))))
  refine ⟨h₆.memset (l.stop + 40) 0 n, ?_, ?_, hg, ?_, ?_, ?_⟩
  · simp only [place, hstop, e₁, e₂, e₃, e₄, e₅, hadd, e₆, hsize, w₆.value, hnew]
  · rw [linked_append, linked_append]
    refine ⟨⟨?_, ⟨?_, ?_, ?_, ?_, ?_⟩, trivial⟩, ⟨?_, ?_, ?_, ?_, ?_⟩, trivial⟩
    · apply ((linked_append pre [l]).mp hv.linked).1.frame
      intro x hx f
      have := hpre x hx
      simp only [Blk.stop] at this
      rw [hold x.addr f (by omega), w₁.apart x.addr f (by simp only [Apart]; omega)]
    · rw [hl₁, w₁.other _ (by decide), hd.size]
    · rw [hl₁, w₁.value]
      rfl
    · rw [hl₁, w₁.other _ (by decide), hd.prev]
    · rw [hl₁, w₁.other _ (by decide), hd.isFree]
    · rw [hl₁, w₁.other _ (by decide), hd.ptr]
    · rw [hnew, hsize]
    · rw [hnew, w₆.other _ (by decide), w₅.other _ (by decide), w₄.other _ (by decide), w₃.value]
      rfl
    · rw [hnew, w₆.other _ (by decide), w₅.other _ (by decide), w₄.other _ (by decide), w₃.other _ (by decide),
        w₂.value, lastAddr_append]
      rfl
    · rw [hnew, w₆.other _ (by decide), w₅.other _ (by decide), w₄.value]
      rfl
    · rw [hnew, w₆.value]
      rfl
  · intro x hx i hi hi'
    have hout : i < l.stop ∧ Outside l.addr i := by
      rcases List.mem_append.mp hx with hx | hx
      · have := hpre x hx
        simp only [Outside]
        omega
      · obtain rfl := List.mem_singleton.mp hx
        exact ⟨hi', Or.inr hi⟩
    have hl : Outside l.stop i := Or.inl hout.1
    rw [mem_memset_outside (by omega), w₆.bytes i hl, w₅.bytes i hl, w₄.bytes i hl, w₃.bytes i hl, w₂.bytes i hl,
      w₁.bytes i hout.2]
  · exact fun i hi => mem_memset ⟨Nat.le_add_right _ _, Nat.add_lt_add_left hi _⟩
  · change h₆.mem.fill (l.stop + 40) n 0 = _
    rw [Memory.fill_zero, ← e₆, ← e₅, ← e₄, ← e₃, ← e₂, ← e₁]
    rfl

lemma place_spec {h : Heap} {pre : List Blk} {l : Blk} {n : ℕ} (hv : Valid h (pre ++ [l]))
    (hroom : l.stop + blockSize + n ≤ h.brk) :
    ∃ h', place h l.addr n = (l.stop + blockSize, h') ∧ Valid h' (pre ++ [l] ++ [⟨l.stop, n, false⟩]) ∧
      SameGlobals h h' ∧ (∀ x ∈ pre ++ [l], SameData h h' x) ∧ (∀ i < n, h'.mem (l.stop + blockSize + i) = 0) ∧
      h'.mem = h.mem.writes (placeWords l.addr l.stop n) := by
  have hbrk := hv.brk_lt
  obtain ⟨h', e, hl, hg, hm, hz, hw⟩ := place_writes (n := n) hv (by simp only [wordSize]; omega)
  refine ⟨h', e, ⟨⟨hl, ?_, ?_, ?_, ?_, ?_⟩, ?_⟩, hg, hm, hz, hw⟩
  · rw [hg.first, hv.first]
    cases pre <;> rfl
  · rw [List.pairwise_append]
    refine ⟨hv.apart, List.pairwise_singleton _ _, fun x hx y hy => ?_⟩
    obtain rfl := List.mem_singleton.mp hy
    rcases List.mem_append.mp hx with hx | hx
    · exact (hv.around.1 x hx).trans (by simp only [Blk.stop]; omega)
    · obtain rfl := List.mem_singleton.mp hx
      exact le_rfl
  · intro b hb
    rw [hg.base, hg.brk]
    rcases List.mem_append.mp hb with hb | hb
    · exact hv.inside b hb
    · obtain rfl := List.mem_singleton.mp hb
      exact ⟨(hv.inside l (by simp)).1.trans (by simp only [Blk.stop]; omega), hroom⟩
  · intro b hb
    rcases List.mem_append.mp hb with hb | hb
    · exact hv.pos b hb
    · obtain rfl := List.mem_singleton.mp hb
      exact (hv.pos l (by simp)).trans_le (by simp only [Blk.stop]; omega)
  · rw [hg.base, hg.brk, hg.limit]
    exact hv.bounds
  · rw [List.isChain_append]
    refine ⟨hv.merged, List.isChain_singleton _, ?_⟩
    simp

def Used (bs : List Blk) (b : Blk) : Prop := b ∈ bs ∧ b.free = false

lemma inUse_iff {bs : List Blk} {p : ℕ} : InUse bs p ↔ ∃ b, Used bs b ∧ b.data = p := by
  simp only [InUse, Used, and_assoc]

structure Served (h h' : Heap) (bs : List Blk) (n a : ℕ) (bs' : List Blk) : Prop where
  valid : Valid h' bs'
  used : ∀ c, Used bs' c ↔ c = ⟨a, n, false⟩ ∨ Used bs c
  fresh : ¬ InUse bs (a + blockSize)
  data : ∀ c, Used bs c → SameData h h' c
  zero : ∀ i < n, h'.mem (a + blockSize + i) = 0
  base : h'.base = h.base

namespace Served

variable {h h' : Heap} {bs bs' : List Blk} {n a : ℕ} (hs : Served h h' bs n a bs')

include hs

lemma block : Used bs' ⟨a, n, false⟩ := (hs.used _).mpr (Or.inl rfl)

lemma inUse (p : ℕ) : InUse bs' p ↔ p = a + blockSize ∨ InUse bs p := by
  simp only [inUse_iff, hs.used]
  constructor
  · rintro ⟨b, rfl | hb, rfl⟩
    · exact Or.inl rfl
    · exact Or.inr ⟨b, hb, rfl⟩
  · rintro (rfl | ⟨b, hb, rfl⟩)
    · exact ⟨_, Or.inl rfl, rfl⟩
    · exact ⟨b, Or.inr hb, rfl⟩

end Served

lemma reuse_served {h : Heap} {pre post : List Blk} {b : Blk} {n : ℕ} (hv : Valid h (pre ++ [b] ++ post))
    (hb : b.free = true) (hn : n ≤ b.size) :
    ∃ h', reuse h b.addr n = (b.addr + blockSize, h') ∧ SameGlobals h h' ∧
      Served h h' (pre ++ [b] ++ post) n b.addr (pre ++ carve b n ++ post) ∧
      h'.mem = h.mem.writes (reuseWords b.addr b.size (headAddr null post) n) := by
  obtain ⟨h', e, hv', hg, hm, hz, hw⟩ := reuse_spec hv hb hn
  have hone : Laid h (pre ++ b :: post) := by simpa using hv.toLaid
  refine ⟨h', e, hg, ⟨hv', fun c => ?_, ?_, ?_, hz, hg.base⟩, hw⟩
  · have hrest : c ∈ rest b n → c.free = true := fun hc => (mem_rest hc).2.2
    simp only [Used, carve, List.mem_append, List.mem_cons, List.not_mem_nil, or_false]
    constructor
    · rintro ⟨(hc | rfl | hc) | hc, hf⟩
      · exact Or.inr ⟨Or.inl (Or.inl hc), hf⟩
      · exact Or.inl rfl
      · exact absurd (hrest hc) (by simp [hf])
      · exact Or.inr ⟨Or.inr hc, hf⟩
    · rintro (rfl | ⟨(hc | rfl) | hc, hf⟩)
      · exact ⟨Or.inl (Or.inr (Or.inl rfl)), rfl⟩
      · exact ⟨Or.inl (Or.inl hc), hf⟩
      · exact absurd hb (by simp [hf])
      · exact ⟨Or.inr hc, hf⟩
  · have hno := hone.not_inUse
    simp only [Blk.data] at hno
    simp [hno, hb]
  · rintro c ⟨hc, hf⟩
    apply hm
    simp only [List.mem_append, List.mem_singleton] at hc ⊢
    rcases hc with (hc | rfl) | hc
    · exact Or.inl hc
    · exact absurd hb (by simp [hf])
    · exact Or.inr hc

lemma place_served {h : Heap} {pre : List Blk} {l : Blk} {n : ℕ} (hv : Valid h (pre ++ [l]))
    (hroom : l.stop + blockSize + n ≤ h.brk) :
    ∃ h', place h l.addr n = (l.stop + blockSize, h') ∧ SameGlobals h h' ∧
      Served h h' (pre ++ [l]) n l.stop (pre ++ [l] ++ [⟨l.stop, n, false⟩]) ∧
      h'.mem = h.mem.writes (placeWords l.addr l.stop n) := by
  obtain ⟨h', e, hv', hg, hm, hz, hw⟩ := place_spec hv hroom
  refine ⟨h', e, hg, ⟨hv', fun c => ?_, ?_, fun c hc => hm c hc.1, hz, hg.base⟩, hw⟩
  · simp only [Used, List.mem_append, List.mem_singleton]
    constructor
    · rintro ⟨hc | rfl, hf⟩
      · exact Or.inr ⟨hc, hf⟩
      · exact Or.inl rfl
    · rintro (rfl | ⟨hc, hf⟩)
      · exact ⟨Or.inr rfl, rfl⟩
      · exact ⟨Or.inl hc, hf⟩
  · exact (show Laid h' ((pre ++ [l]) ++ ⟨l.stop, n, false⟩ :: []) from hv'.toLaid).not_inUse.1

section Append

variable {h : Heap} {pre : List Blk} {l : Blk} {n : ℕ} (hv : Valid h (pre ++ [l]))

include hv

lemma append_ends : add64 (h.get l.addr .ptr) (h.get l.addr .size) = l.stop ∧
    sub64 (sub64 h.brk (h.get l.addr .ptr)) (h.get l.addr .size) = h.brk - l.stop := by
  have hbrk := hv.brk_lt
  have hd := hv.header
  have hin := (hv.inside l (by simp)).2
  simp only [Blk.stop, blockSize] at hin
  rw [hd.ptr, hd.size]
  constructor
  · exact add64_of_lt (by simp only [Blk.data, blockSize, wordSize]; omega)
  · rw [sub64_of_le (a := h.brk) (by simp only [Blk.data, blockSize]; omega) (by simp only [wordSize]; omega)]
    rw [sub64_of_le (by simp only [Blk.data, blockSize]; omega) (by simp only [wordSize]; omega)]
    simp only [Blk.data, Blk.stop, blockSize]
    omega

lemma append_room (hroom : l.stop + blockSize + n ≤ h.brk) :
    ∃ h', append h l.addr n = (l.stop + blockSize, h') ∧ SameGlobals h h' ∧
      Served h h' (pre ++ [l]) n l.stop (pre ++ [l] ++ [⟨l.stop, n, false⟩]) ∧
      h'.mem = h.mem.writes (placeWords l.addr l.stop n) := by
  have hbrk := hv.brk_lt
  simp only [blockSize] at hroom
  have hle : ¬ l.stop > sub64 (sub64 h.brk n) blockSize := by
    rw [sub64_of_le (a := h.brk) (by omega) (by simp only [wordSize]; omega)]
    rw [sub64_of_le (by simp only [blockSize]; omega) (by simp only [wordSize]; omega)]
    simp only [blockSize]
    omega
  rw [append, (append_ends hv).1, if_neg hle]
  exact place_served hv hroom

lemma append_grow (hn : n + blockSize ≤ h.brk) (hroom : h.brk < l.stop + blockSize + n) :
    (∃ h', append h l.addr n = (l.stop + blockSize, h') ∧ h'.brk = l.stop + blockSize + n ∧
      (∃ bs', Served h h' (pre ++ [l]) n l.stop bs') ∧ h'.mem = h.mem.writes (placeWords l.addr l.stop n)) ∨
    ∃ h', append h l.addr n = (null, h') ∧ Grown h h' 0 ∧
    (h.sbrk (n + blockSize - (h.brk - l.stop))).2 = false := by
  have hbrk := hv.brk_lt
  have hin := (hv.inside l (by simp)).2
  simp only [blockSize] at hn hroom
  have hgt : l.stop > sub64 (sub64 h.brk n) blockSize := by
    rw [sub64_of_le (a := h.brk) (by omega) (by simp only [wordSize]; omega)]
    rw [sub64_of_le (by simp only [blockSize]; omega) (by simp only [wordSize]; omega)]
    simp only [blockSize]
    omega
  have hneed : sub64 (add64 n blockSize) (h.brk - l.stop) = n + blockSize - (h.brk - l.stop) := by
    rw [add64_of_lt (by simp only [wordSize, blockSize]; omega)]
    exact sub64_of_le (by simp only [blockSize]; omega) (by simp only [wordSize, blockSize]; omega)
  rw [append, (append_ends hv).1, (append_ends hv).2, if_pos hgt, hneed]
  rcases sbrk_spec (h := h) (n := n + blockSize - (h.brk - l.stop)) (by simp only [blockSize]; omega)
    (by simp only [blockSize]; omega) hv.bounds.2 with ⟨h₀, e₀, hg⟩ | ⟨h₀, e₀, hg⟩
  · have hbrk₀ : h₀.brk = l.stop + blockSize + n := by
      rw [hg.brk]
      simp only [blockSize]
      omega
    obtain ⟨h', e, hg', hs, hw⟩ := place_served (n := n) (hg.valid hv) hbrk₀.ge
    refine Or.inl ⟨h', by rw [e₀, ← e], hg'.brk.trans hbrk₀, ⟨_, hs.valid, hs.used, hs.fresh, ?_, hs.zero,
      hs.base.trans hg.base⟩, by rw [hw, hg.mem]⟩
    intro c hc x hx hx'
    rw [hs.data c hc x hx hx', hg.mem]
  · exact Or.inr ⟨h₀, by rw [e₀], hg, by rw [e₀]⟩

end Append

lemma newFirst_writes {h : Heap} {n : ℕ} (hlt : h.first < 2 ^ 63) (hn : n < wordSize) :
    ∃ h', newFirst h n = (h.first + blockSize, h') ∧ Header h' null null ⟨h.first, n, false⟩ ∧ SameGlobals h h' ∧
      ∀ i < n, h'.mem (h.first + blockSize + i) = 0 := by
  have hadd : add64 h.first blockSize = h.first + blockSize := add64_of_lt (by
    simp only [blockSize, wordSize] at *
    omega)
  simp only [blockSize] at hadd
  obtain ⟨h₁, e₁, w₁⟩ := set_word h h.first .prev null (by decide) (by decide)
  obtain ⟨h₂, e₂, w₂⟩ := set_word h₁ h.first .next null (by decide) (by decide)
  obtain ⟨h₃, e₃, w₃⟩ := set_word h₂ h.first .size n (by decide) hn
  obtain ⟨h₄, e₄, w₄⟩ := set_flag h₃ h.first 0 (by decide)
  obtain ⟨h₅, e₅, w₅⟩ := set_word h₄ h.first .ptr (h.first + 40) (by decide) (by omega)
  have hsize : h₅.get h.first .size = n := by
    rw [w₅.other _ (by decide), w₄.other _ (by decide), w₃.value]
  have hnew : ∀ f, (h₅.memset (h.first + 40) 0 n).get h.first f = h₅.get h.first f := fun f =>
    get_memset_apart (Or.inr le_rfl)
  have hg : SameGlobals h (h₅.memset (h.first + 40) 0 n) :=
    w₁.globals.trans (w₂.globals.trans (w₃.globals.trans (w₄.globals.trans (w₅.globals.trans
      ⟨rfl, rfl, rfl, rfl⟩))))
  refine ⟨h₅.memset (h.first + 40) 0 n, ?_, ⟨?_, ?_, ?_, ?_, ?_⟩, hg, ?_⟩
  · simp only [newFirst, e₁, e₂, e₃, e₄, hadd, e₅, hsize, w₅.value, hnew]
  · rw [hnew, hsize]
  · rw [hnew, w₅.other _ (by decide), w₄.other _ (by decide), w₃.other _ (by decide), w₂.value]
  · rw [hnew, w₅.other _ (by decide), w₄.other _ (by decide), w₃.other _ (by decide), w₂.other _ (by decide),
      w₁.value]
  · rw [hnew, w₅.other _ (by decide), w₄.value]
    rfl
  · rw [hnew, w₅.value]
    rfl
  · exact fun i hi => mem_memset ⟨Nat.le_add_right _ _, Nat.add_lt_add_left hi _⟩

lemma newFirst_served {h : Heap} {n : ℕ} (hpos : 0 < h.first) (hbase : h.base ≤ h.first)
    (hroom : h.first + blockSize + n ≤ h.brk) (hb : h.brk ≤ h.limit.addr) :
    ∃ h', newFirst h n = (h.first + blockSize, h') ∧ Served h h' [] n h.first [⟨h.first, n, false⟩] := by
  have hlt := h.limit.addr_lt
  obtain ⟨h', e, hd, hg, hz⟩ := newFirst_writes (h := h) (n := n) (by simp only [blockSize] at hroom; omega)
    (by simp only [wordSize]; omega)
  refine ⟨h', e, ⟨⟨⟨hd, trivial⟩, hg.first, List.pairwise_singleton _ _, ?_, ?_, ?_⟩, List.isChain_singleton _⟩,
    ?_, by simp, by simp [Used], hz, hg.base⟩
  · intro b hmem
    obtain rfl := List.mem_singleton.mp hmem
    rw [hg.base, hg.brk]
    exact ⟨hbase, hroom⟩
  · intro b hmem
    obtain rfl := List.mem_singleton.mp hmem
    exact hpos
  · rw [hg.base, hg.brk, hg.limit]
    exact ⟨by omega, hb⟩
  · intro c
    simp only [Used, List.mem_singleton, List.not_mem_nil, false_and, or_false, and_iff_left_iff_imp]
    rintro rfl
    rfl

end CourseArchive.MmAlloc
