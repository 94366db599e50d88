import CourseArchive.MmAlloc.Model

/-! The block list of a well-formed heap, and what it says about the headers in memory. -/

namespace CourseArchive.MmAlloc

open Lib Heap

namespace Heap

variable {h : Heap} {a b n v : ℕ} {f g : Field}

lemma get_set_self (hf : f ≠ .isFree) (hv : v < 2 ^ 64) : (h.set a f v).get a f = v := by
  rw [get, set, Memory.load_store]
  cases f <;> first | exact absurd rfl hf | exact Nat.mod_eq_of_lt hv

lemma get_set_isFree (hv : v < 2 ^ 32) : (h.set a .isFree v).get a .isFree = v := by
  rw [get, set, Memory.load_store]
  exact Nat.mod_eq_of_lt hv

lemma get_set_field (hf : f ≠ g) : (h.set a f v).get a g = h.get a g := by
  apply Memory.load_store_of_disjoint
  cases f <;> cases g <;> simp [Field.offset, Field.width] at hf ⊢

lemma get_set_apart (hd : a + blockSize ≤ b ∨ b + blockSize ≤ a) : (h.set a f v).get b g = h.get b g := by
  apply Memory.load_store_of_disjoint
  cases f <;> cases g <;> simp [Field.offset, Field.width, blockSize] at hd ⊢ <;> omega

lemma get_memset_apart {c : UInt8} (hd : a + n ≤ b ∨ b + blockSize ≤ a) :
    (h.memset a c n).get b g = h.get b g := by
  apply Memory.load_fill_of_disjoint
  cases g <;> simp [Field.offset, Field.width, blockSize] at hd ⊢ <;> omega

def Outside (a x : ℕ) : Prop := x < a ∨ a + blockSize ≤ x

lemma mem_set_outside {x : ℕ} (hx : Outside a x) : (h.set a f v).mem x = h.mem x := by
  apply if_neg
  cases f <;> simp only [Outside, Field.offset, Field.width, blockSize] at * <;> omega

lemma mem_memset {c : UInt8} {x : ℕ} (hx : a ≤ x ∧ x < a + n) : (h.memset a c n).mem x = c := if_pos hx

lemma mem_memset_outside {c : UInt8} {x : ℕ} (hx : x < a ∨ a + n ≤ x) : (h.memset a c n).mem x = h.mem x :=
  if_neg (by omega)

lemma get_congr {h' : Heap} (hs : ∀ x, ¬ Outside a x → h'.mem x = h.mem x) : h'.get a f = h.get a f := by
  apply Memory.load_congr
  intro x hx hx'
  apply hs
  cases f <;> simp only [Outside, Field.offset, Field.width, blockSize] at * <;> omega

structure SameGlobals (h h' : Heap) : Prop where
  first : h'.first = h.first
  base : h'.base = h.base
  brk : h'.brk = h.brk
  limit : h'.limit = h.limit

lemma SameGlobals.refl (h : Heap) : SameGlobals h h := ⟨rfl, rfl, rfl, rfl⟩

lemma SameGlobals.trans {h₁ h₂ h₃ : Heap} (h : SameGlobals h₁ h₂) (h' : SameGlobals h₂ h₃) :
    SameGlobals h₁ h₃ :=
  ⟨h'.first.trans h.first, h'.base.trans h.base, h'.brk.trans h.brk, h'.limit.trans h.limit⟩

def Apart (a b : ℕ) : Prop := a + blockSize ≤ b ∨ b + blockSize ≤ a

lemma Apart.symm {a b : ℕ} (h : Apart a b) : Apart b a := Or.symm h

structure Wrote (h h' : Heap) (a : ℕ) (f : Field) (v : ℕ) : Prop where
  value : h'.get a f = v
  other : ∀ g, f ≠ g → h'.get a g = h.get a g
  apart : ∀ x g, Apart a x → h'.get x g = h.get x g
  bytes : ∀ x, Outside a x → h'.mem x = h.mem x
  globals : SameGlobals h h'

lemma set_word (h : Heap) (a : ℕ) (f : Field) (v : ℕ) (hf : f ≠ .isFree) (hv : v < 2 ^ 64) :
    ∃ h', h.set a f v = h' ∧ Wrote h h' a f v :=
  ⟨_, rfl, get_set_self hf hv, fun _ => get_set_field, fun _ _ => get_set_apart, fun _ => mem_set_outside, rfl,
    rfl, rfl, rfl⟩

lemma set_flag (h : Heap) (a : ℕ) (v : ℕ) (hv : v < 2 ^ 32) :
    ∃ h', h.set a .isFree v = h' ∧ Wrote h h' a .isFree v :=
  ⟨_, rfl, get_set_isFree hv, fun _ => get_set_field, fun _ _ => get_set_apart, fun _ => mem_set_outside, rfl, rfl,
    rfl, rfl⟩

structure Relinked (h h' : Heap) (a v : ℕ) : Prop where
  wrote : a ≠ null → Wrote h h' a .prev v
  same : a = null → h' = h

lemma set_unless_null (h : Heap) (a v : ℕ) (hv : v < 2 ^ 64) :
    ∃ h', (if a ≠ null then h.set a .prev v else h) = h' ∧ Relinked h h' a v := by
  by_cases ha : a = null
  · exact ⟨h, if_neg (not_not.mpr ha), fun hne => (hne ha).elim, fun _ => rfl⟩
  · obtain ⟨h', e, w⟩ := set_word h a .prev v (by decide) hv
    exact ⟨h', by rw [if_pos ha, e], fun _ => w, fun hnull => (ha hnull).elim⟩

namespace Relinked

variable {h' : Heap} (w : Relinked h h' a v)

include w

lemma apart {x : ℕ} (hx : a = null ∨ Apart a x) (g : Field) : h'.get x g = h.get x g := by
  by_cases ha : a = null
  · rw [w.same ha]
  · exact (w.wrote ha).apart x g (hx.resolve_left ha)

lemma bytes {x : ℕ} (hx : a = null ∨ Outside a x) : h'.mem x = h.mem x := by
  by_cases ha : a = null
  · rw [w.same ha]
  · exact (w.wrote ha).bytes x (hx.resolve_left ha)

lemma globals : SameGlobals h h' := by
  by_cases ha : a = null
  · rw [w.same ha]
    exact SameGlobals.refl h
  · exact (w.wrote ha).globals

end Relinked

end Heap

lemma add64_of_lt {a b : ℕ} (h : a + b < wordSize) : add64 a b = a + b := Nat.mod_eq_of_lt h

lemma sub64_of_le {a b : ℕ} (h : b ≤ a) (ha : a < wordSize) : sub64 a b = a - b := by
  simp only [sub64, wordSize] at *
  omega

structure Blk where
  addr : ℕ
  size : ℕ
  free : Bool
  deriving DecidableEq

def Blk.data (b : Blk) : ℕ := b.addr + blockSize

def Blk.stop (b : Blk) : ℕ := b.addr + blockSize + b.size

lemma Blk.addr_le_stop (b : Blk) : b.addr ≤ b.stop := by
  simp only [Blk.stop]
  omega

structure Header (h : Heap) (prev next : ℕ) (b : Blk) : Prop where
  size : h.get b.addr .size = b.size
  next : h.get b.addr .next = next
  prev : h.get b.addr .prev = prev
  isFree : h.get b.addr .isFree = b.free.toNat
  ptr : h.get b.addr .ptr = b.data

lemma Header.isFree_iff {h : Heap} {p q : ℕ} {b : Blk} (hd : Header h p q b) :
    h.get b.addr .isFree = 0 ↔ b.free = false := by
  rw [hd.isFree]
  cases b.free <;> simp

def headAddr (next : ℕ) : List Blk → ℕ
  | [] => next
  | b :: _ => b.addr

def lastAddr (prev : ℕ) : List Blk → ℕ
  | [] => prev
  | b :: bs => lastAddr b.addr bs

def Linked (h : Heap) : ℕ → List Blk → ℕ → Prop
  | _, [], _ => True
  | prev, b :: bs, next => Header h prev (headAddr next bs) b ∧ Linked h b.addr bs next

lemma headAddr_append (next : ℕ) (xs ys : List Blk) :
    headAddr next (xs ++ ys) = headAddr (headAddr next ys) xs := by
  cases xs <;> rfl

@[simp] lemma lastAddr_append (prev : ℕ) (xs ys : List Blk) :
    lastAddr prev (xs ++ ys) = lastAddr (lastAddr prev xs) ys := by
  induction xs generalizing prev with
  | nil => rfl
  | cons x xs ih => exact ih x.addr

lemma linked_append {h : Heap} {prev next : ℕ} (xs ys : List Blk) :
    Linked h prev (xs ++ ys) next ↔
      Linked h prev xs (headAddr next ys) ∧ Linked h (lastAddr prev xs) ys next := by
  induction xs generalizing prev with
  | nil => simp [Linked, lastAddr]
  | cons x xs ih => simp only [List.cons_append, Linked, lastAddr, headAddr_append, ih, and_assoc]

def SameHeader (h h' : Heap) (a : ℕ) : Prop := ∀ f, h'.get a f = h.get a f

lemma Header.frame {h h' : Heap} {prev next : ℕ} {b : Blk} (hb : Header h prev next b)
    (hs : SameHeader h h' b.addr) : Header h' prev next b :=
  ⟨(hs _).trans hb.size, (hs _).trans hb.next, (hs _).trans hb.prev, (hs _).trans hb.isFree,
    (hs _).trans hb.ptr⟩

lemma Linked.frame {h h' : Heap} {prev next : ℕ} {bs : List Blk} (hl : Linked h prev bs next)
    (hs : ∀ b ∈ bs, SameHeader h h' b.addr) : Linked h' prev bs next := by
  induction bs generalizing prev with
  | nil => trivial
  | cons b bs ih => exact ⟨hl.1.frame (hs b (by simp)), ih hl.2 fun c hc => hs c (by simp [hc])⟩

def SameData (h h' : Heap) (b : Blk) : Prop := ∀ x, b.data ≤ x → x < b.stop → h'.mem x = h.mem x

lemma Linked.reprev {h h' : Heap} {prev prev' next : ℕ} {bs : List Blk} (hl : Linked h prev bs next)
    (hhead : ∀ b ∈ bs.head?, h'.get b.addr .prev = prev' ∧ ∀ f, Field.prev ≠ f → h'.get b.addr f = h.get b.addr f)
    (htail : ∀ b ∈ bs.tail, SameHeader h h' b.addr) : Linked h' prev' bs next := by
  cases bs with
  | nil => trivial
  | cons b bs =>
    obtain ⟨hp, hf⟩ := hhead b rfl
    refine ⟨⟨?_, ?_, hp, ?_, ?_⟩, hl.2.frame htail⟩
    · rw [hf _ (by decide), hl.1.size]
    · rw [hf _ (by decide), hl.1.next]
    · rw [hf _ (by decide), hl.1.isFree]
    · rw [hf _ (by decide), hl.1.ptr]

/-- The heap `h` holds exactly the blocks `bs`, in address order and without overlap. -/
structure Laid (h : Heap) (bs : List Blk) : Prop where
  linked : Linked h null bs null
  first : h.first = headAddr null bs
  apart : bs.Pairwise fun a b => a.stop ≤ b.addr
  inside : ∀ b ∈ bs, h.base ≤ b.addr ∧ b.stop ≤ h.brk
  pos : ∀ b ∈ bs, 0 < b.addr
  bounds : h.base ≤ h.brk ∧ h.brk ≤ h.limit.addr

structure Valid (h : Heap) (bs : List Blk) : Prop extends Laid h bs where
  merged : bs.IsChain fun a b => ¬ (a.free = true ∧ b.free = true)

namespace Laid

variable {h : Heap} {bs : List Blk}

lemma stop_lt (hv : Laid h bs) {b : Blk} (hb : b ∈ bs) : b.stop < 2 ^ 63 :=
  ((hv.inside b hb).2.trans hv.bounds.2).trans_lt h.limit.addr_lt

lemma brk_lt (hv : Laid h bs) : h.brk < 2 ^ 63 := hv.bounds.2.trans_lt h.limit.addr_lt

lemma first_ne_null (hv : Laid h bs) {b : Blk} (hb : b ∈ bs) : h.first ≠ null := by
  cases bs with
  | nil => exact absurd hb List.not_mem_nil
  | cons c bs =>
    rw [hv.first]
    exact (hv.pos c (by simp)).ne'

lemma first_le (hv : Laid h bs) {b : Blk} (hb : b ∈ bs) : h.first ≤ b.addr := by
  cases bs with
  | nil => exact absurd hb List.not_mem_nil
  | cons c bs =>
    rw [hv.first, headAddr]
    rcases List.mem_cons.mp hb with rfl | hb
    · exact le_rfl
    · exact c.addr_le_stop.trans ((List.pairwise_cons.mp hv.apart).1 b hb)

lemma order (hv : Laid h bs) {b c : Blk} (hb : b ∈ bs) (hc : c ∈ bs) :
    b = c ∨ b.stop ≤ c.addr ∨ c.stop ≤ b.addr := by
  have hsymm : Std.Symm fun b c : Blk => b.stop ≤ c.addr ∨ c.stop ≤ b.addr := ⟨fun b c => Or.symm⟩
  have hp : bs.Pairwise fun b c => b.stop ≤ c.addr ∨ c.stop ≤ b.addr := hv.apart.imp Or.inl
  exact or_iff_not_imp_left.mpr (hp.forall hb hc)

lemma data_outside (hv : Laid h bs) {b c : Blk} (hb : b ∈ bs) (hc : c ∈ bs) {x : ℕ} (hx : c.data ≤ x)
    (hx' : x < c.stop) : Outside b.addr x := by
  rcases hv.order hb hc with rfl | hbc | hcb
  · exact Or.inr hx
  · simp only [Outside, Blk.data, Blk.stop] at *
    omega
  · exact Or.inl (hx'.trans_le hcb)

lemma header {pre post : List Blk} {b : Blk} (hv : Laid h (pre ++ b :: post)) :
    Header h (lastAddr null pre) (headAddr null post) b :=
  ((linked_append pre (b :: post)).mp hv.linked).2.1

lemma around {pre post : List Blk} {b : Blk} (hv : Laid h (pre ++ b :: post)) :
    (∀ x ∈ pre, x.stop ≤ b.addr) ∧ (∀ y ∈ post, b.stop ≤ y.addr) ∧
      (∀ x ∈ pre, ∀ y ∈ post, x.stop ≤ y.addr) ∧ pre.Pairwise (fun a b => a.stop ≤ b.addr) ∧
      post.Pairwise fun a b => a.stop ≤ b.addr := by
  have hp := List.pairwise_append.mp hv.apart
  have hc := List.pairwise_cons.mp hp.2.1
  exact ⟨fun x hx => hp.2.2 x hx b (by simp), hc.1, fun x hx y hy => hp.2.2 x hx y (by simp [hy]), hp.1, hc.2⟩

lemma replace {h' : Heap} {pre mid mid' post : List Blk} (hv : Laid h (pre ++ mid ++ post))
    (hcover : ∀ c ∈ mid', ∃ a ∈ mid, ∃ b ∈ mid, a.addr ≤ c.addr ∧ c.stop ≤ b.stop)
    (hhead : ∀ next, headAddr next mid' = headAddr next mid)
    (hpair : mid'.Pairwise fun a b => a.stop ≤ b.addr) (hl : Linked h' null (pre ++ mid' ++ post) null)
    (hg : SameGlobals h h') : Laid h' (pre ++ mid' ++ post) := by
  obtain ⟨hpm, hpost, hx⟩ := List.pairwise_append.mp hv.apart
  obtain ⟨hpre, -, hxm⟩ := List.pairwise_append.mp hpm
  refine ⟨hl, ?_, ?_, ?_, ?_, ?_⟩
  · rw [hg.first, hv.first]
    simp only [List.append_assoc, headAddr_append, hhead]
  · rw [List.pairwise_append, List.pairwise_append]
    refine ⟨⟨hpre, hpair, fun x hxp c hc => ?_⟩, hpost, fun x hxp y hy => ?_⟩
    · obtain ⟨a, ha, b, hb, hac, -⟩ := hcover c hc
      exact (hxm x hxp a ha).trans hac
    · rcases List.mem_append.mp hxp with hxp | hxp
      · exact hx x (by simp [hxp]) y hy
      · obtain ⟨a, ha, b, hb, -, hcb⟩ := hcover x hxp
        exact hcb.trans (hx b (by simp [hb]) y hy)
  · intro c hc
    rw [hg.base, hg.brk]
    simp only [List.mem_append] at hc
    rcases hc with (hc | hc) | hc
    · exact hv.inside c (by simp [hc])
    · obtain ⟨a, ha, b, hb, hac, hcb⟩ := hcover c hc
      exact ⟨(hv.inside a (by simp [ha])).1.trans hac, hcb.trans (hv.inside b (by simp [hb])).2⟩
    · exact hv.inside c (by simp [hc])
  · intro c hc
    simp only [List.mem_append] at hc
    rcases hc with (hc | hc) | hc
    · exact hv.pos c (by simp [hc])
    · obtain ⟨a, ha, b, hb, hac, -⟩ := hcover c hc
      exact (hv.pos a (by simp [ha])).trans_le hac
    · exact hv.pos c (by simp [hc])
  · rw [hg.base, hg.brk, hg.limit]
    exact hv.bounds

end Laid

def InUse (bs : List Blk) (p : ℕ) : Prop := ∃ b ∈ bs, b.free = false ∧ b.data = p

@[simp] lemma inUse_nil (p : ℕ) : ¬ InUse [] p := by simp [InUse]

@[simp] lemma inUse_cons (b : Blk) (bs : List Blk) (p : ℕ) :
    InUse (b :: bs) p ↔ (b.free = false ∧ b.data = p) ∨ InUse bs p := by
  simp [InUse]

@[simp] lemma inUse_append (xs ys : List Blk) (p : ℕ) : InUse (xs ++ ys) p ↔ InUse xs p ∨ InUse ys p := by
  simp [InUse, or_and_right, exists_or]

lemma not_inUse_null (bs : List Blk) : ¬ InUse bs null := by
  rintro ⟨b, -, -, hb⟩
  simp [Blk.data] at hb

lemma Laid.not_inUse {h : Heap} {pre post : List Blk} {b : Blk} (hv : Laid h (pre ++ b :: post)) :
    ¬ InUse pre b.data ∧ ¬ InUse post b.data := by
  obtain ⟨hpre, hpost, -⟩ := hv.around
  refine ⟨?_, ?_⟩
  · rintro ⟨x, hx, -, he⟩
    have := hpre x hx
    simp only [Blk.stop, Blk.data, blockSize] at *
    omega
  · rintro ⟨y, hy, -, he⟩
    have := hpost y hy
    simp only [Blk.stop, Blk.data, blockSize] at *
    omega

lemma length_bound {bs : List Blk} {lo hi : ℕ} (hlh : lo ≤ hi)
    (hp : bs.Pairwise fun a b => a.stop ≤ b.addr) (hb : ∀ b ∈ bs, lo ≤ b.addr ∧ b.stop ≤ hi) :
    lo + blockSize * bs.length ≤ hi := by
  induction bs generalizing lo with
  | nil => simpa using hlh
  | cons b bs ih =>
    have hc := List.pairwise_cons.mp hp
    have hhead := hb b (by simp)
    have htail := ih hhead.2 hc.2 fun c hcm => ⟨hc.1 c hcm, (hb c (by simp [hcm])).2⟩
    simp only [Blk.stop, blockSize, List.length_cons] at *
    omega

end CourseArchive.MmAlloc
