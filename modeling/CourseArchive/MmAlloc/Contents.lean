import CourseArchive.MmAlloc.Runs

/-! What a program reads back from its blocks: the allocator refines a map from pointers to byte lists. -/

namespace CourseArchive.MmAlloc

open Lib Heap

abbrev Ledger := ℕ → Option (List UInt8)

inductive Op
  | malloc (size : ℕ)
  | realloc (ptr size : ℕ)
  | free (ptr : ℕ)
  | store (ptr i : ℕ) (b : UInt8)

namespace Ledger

def receive (m : Ledger) (r : ℕ) (d : List UInt8) : Option Ledger :=
  if r = null then some m
  else if (m r).isSome then none
  else some (Function.update m r (some d))

def follow (m : Ledger) (r : ℕ) : Op → Option Ledger
  | .malloc size => receive m r (List.replicate size 0)
  | .realloc ptr size =>
    if size = 0 then some (Function.update m ptr none)
    else if r = null then some m
    else match m ptr with
      | none => receive m r (List.replicate size 0)
      | some d => receive (Function.update m ptr none) r (resized d size)
  | .free ptr => some (Function.update m ptr none)
  | .store ptr i b => (m ptr).map fun d => Function.update m ptr (some (d.set i b))

end Ledger

structure Session where
  heap : Heap
  owned : Ledger

namespace Op

def run (h : Heap) : Op → Option (ℕ × Heap)
  | malloc size => mmMalloc size h
  | realloc ptr size => mmRealloc ptr size h
  | free ptr => some (null, mmFree ptr h)
  | store ptr i b => some (null, h.memset (ptr + i) b 1)

def Allowed (fine : Heap → ℕ → Prop) (s : Session) : Op → Prop
  | malloc size => fine s.heap size
  | realloc ptr size => (ptr = null ∨ (s.owned ptr).isSome) ∧ fine s.heap size
  | free ptr => ptr = null ∨ (s.owned ptr).isSome
  | store ptr i _ => i < ((s.owned ptr).getD []).length

instance (fine : Heap → ℕ → Prop) [∀ h n, Decidable (fine h n)] (s : Session) : (o : Op) →
    Decidable (o.Allowed fine s)
  | malloc _ => inferInstanceAs (Decidable (fine _ _))
  | realloc .. => inferInstanceAs (Decidable (_ ∧ _))
  | free _ => inferInstanceAs (Decidable (_ ∨ _))
  | store .. => inferInstanceAs (Decidable (_ < _))

end Op

def Session.step (s : Session) (o : Op) : Option Session := do
  let (r, heap) ← o.run s.heap
  let owned ← s.owned.follow r o
  return ⟨heap, owned⟩

def Session.start (h : Heap) : Session := ⟨h, fun _ => none⟩

def BelowBreak (h : Heap) (n : ℕ) : Prop := n + blockSize ≤ h.brk

instance (h : Heap) (n : ℕ) : Decidable (BelowBreak h n) := inferInstanceAs (Decidable (_ ≤ _))

structure Represents (h : Heap) (m : Ledger) : Prop where
  live : ∀ p, (m p).isSome ↔ ∃ a ∈ blocks h, h.get a .isFree = 0 ∧ p = a + blockSize
  reads : ∀ p d, m p = some d → h.mem.bytes p d.length = d
  disjoint : ∀ p q d e, m p = some d → m q = some e → p ≠ q → p + d.length ≤ q ∨ q + e.length ≤ p
  headers : ∀ p d, m p = some d → ∀ a ∈ blocks h, p + d.length ≤ a ∨ a + blockSize ≤ p

def Holds (h : Heap) (bs : List Blk) (m : Ledger) : Prop :=
  ∀ p d, m p = some d ↔ ∃ b, Used bs b ∧ b.data = p ∧ d = h.mem.bytes p b.size

namespace Holds

variable {h h' : Heap} {bs bs' : List Blk} {m : Ledger} {b t : Blk}

lemma bytes_eq (hd : SameData h h' b) : h'.mem.bytes b.data b.size = h.mem.bytes b.data b.size := by
  apply Memory.bytes_congr
  intro i hi
  exact hd _ (Nat.le_add_right _ _) (Nat.add_lt_add_left hi _)

lemma of_mem (hm : Holds h bs m) (he : h'.mem = h.mem) : Holds h' bs m := by
  intro p d
  rw [hm, he]

lemma none_iff (hm : Holds h bs m) {p : ℕ} : m p = none ↔ ¬ InUse bs p := by
  rw [inUse_iff, Option.eq_none_iff_forall_ne_some]
  constructor
  · rintro hno ⟨c, hc, rfl⟩
    exact hno _ ((hm _ _).mpr ⟨c, hc, rfl, rfl⟩)
  · rintro hno d hd
    obtain ⟨c, hc, he, -⟩ := (hm p d).mp hd
    exact hno ⟨c, hc, he⟩

lemma erase (hm : Holds h bs m) (hv : Valid h bs) (ht : Used bs t) (hu : ∀ c, Used bs' c ↔ Used bs c ∧ c ≠ t)
    (hd : ∀ c, Used bs c → c ≠ t → SameData h h' c) : Holds h' bs' (Function.update m t.data none) := by
  intro p d
  by_cases hp : p = t.data
  · rw [hp, Function.update_self]
    constructor
    · nofun
    · rintro ⟨c, hc, he, -⟩
      obtain ⟨hc, hne⟩ := (hu c).mp hc
      exact (hne (hv.eq_of_data hc.1 ht.1 he)).elim
  · rw [Function.update_of_ne hp, hm]
    constructor
    · rintro ⟨c, hc, rfl, rfl⟩
      have hne : c ≠ t := fun he => hp (he ▸ rfl)
      exact ⟨c, (hu c).mpr ⟨hc, hne⟩, rfl, (bytes_eq (hd c hc hne)).symm⟩
    · rintro ⟨c, hc, rfl, rfl⟩
      obtain ⟨hc, hne⟩ := (hu c).mp hc
      exact ⟨c, hc, rfl, bytes_eq (hd c hc hne)⟩

lemma insert (hm : Holds h bs m) (hu : ∀ c, Used bs' c ↔ c = b ∨ Used bs c) (hfresh : ¬ InUse bs b.data)
    (hd : ∀ c, Used bs c → SameData h h' c) :
    Holds h' bs' (Function.update m b.data (some (h'.mem.bytes b.data b.size))) := by
  intro p d
  by_cases hp : p = b.data
  · rw [hp, Function.update_self, Option.some.injEq]
    constructor
    · rintro rfl
      exact ⟨b, (hu b).mpr (Or.inl rfl), rfl, rfl⟩
    · rintro ⟨c, hc, he, rfl⟩
      rcases (hu c).mp hc with rfl | hc
      · rfl
      · exact (hfresh (inUse_iff.mpr ⟨c, hc, he⟩)).elim
  · rw [Function.update_of_ne hp, hm]
    constructor
    · rintro ⟨c, hc, rfl, rfl⟩
      exact ⟨c, (hu c).mpr (Or.inr hc), rfl, (bytes_eq (hd c hc)).symm⟩
    · rintro ⟨c, hc, rfl, rfl⟩
      rcases (hu c).mp hc with rfl | hc
      · exact (hp rfl).elim
      · exact ⟨c, hc, rfl, bytes_eq (hd c hc)⟩

lemma write (hm : Holds h bs m) (hv : Valid h bs) (ht : Used bs t) (hd : ∀ c ∈ bs, c ≠ t → SameData h h' c) :
    Holds h' bs (Function.update m t.data (some (h'.mem.bytes t.data t.size))) := by
  have hrest : Holds h' (bs.filter (· ≠ t)) (Function.update m t.data none) :=
    hm.erase hv ht (by simp [Used, and_right_comm]) fun c hc => hd c hc.1
  have hfresh : ¬ InUse (bs.filter (· ≠ t)) t.data := by
    rw [← hrest.none_iff, Function.update_self]
  have hput : ∀ c, Used bs c ↔ c = t ∨ Used (bs.filter (· ≠ t)) c := by
    intro c
    simp only [Used, List.mem_filter, decide_eq_true_eq]
    constructor
    · rintro ⟨hc, hf⟩
      by_cases hct : c = t
      · exact Or.inl hct
      · exact Or.inr ⟨⟨hc, hct⟩, hf⟩
    · rintro (rfl | ⟨⟨hc, -⟩, hf⟩)
      · exact ht
      · exact ⟨hc, hf⟩
  have hnew : Holds h' bs _ := hrest.insert hput hfresh fun _ _ _ _ _ => rfl
  rwa [Function.update_idem] at hnew

lemma live (hm : Holds h bs m) {p : ℕ} (hp : (m p).isSome) : ∃ t, Used bs t ∧ p = t.data ∧
    m t.data = some (h.mem.bytes t.data t.size) := by
  obtain ⟨d, hd⟩ := Option.isSome_iff_exists.mp hp
  obtain ⟨t, ht, rfl, rfl⟩ := (hm p d).mp hd
  exact ⟨t, ht, rfl, hd⟩

end Holds

structure Owns (s : Session) (bs : List Blk) : Prop where
  valid : Valid s.heap bs
  started : Started s.heap bs
  holds : Holds s.heap bs s.owned

namespace Owns

variable {s : Session} {bs : List Blk}

lemma not_null (ho : Owns s bs) : s.owned null = none :=
  ho.holds.none_iff.mpr (not_inUse_null bs)

lemma pos (ho : Owns s bs) {t : Blk} (ht : Used bs t) : 0 < s.heap.brk :=
  (ho.valid.pos t ht.1).trans_le (t.addr_le_stop.trans (ho.valid.inside t ht.1).2)

lemma malloc (ho : Owns s bs) {size : ℕ} (hpos : 0 < s.heap.brk) (hn : size < wordSize) (hs : Sized s.heap size) :
    ∃ r heap owned bs', mmMalloc size s.heap = some (r, heap) ∧
      s.owned.receive r (List.replicate size 0) = some owned ∧ (r = null → owned = s.owned) ∧
      Owns ⟨heap, owned⟩ bs' ∧ heap.base = s.heap.base := by
  rcases mmMalloc_spec ho.valid hpos (Or.inr ho.started) hn hs with ⟨heap, e, hg⟩ | ⟨a, heap, bs', e, hs⟩
  · refine ⟨null, heap, s.owned, bs, e, if_pos rfl, fun _ => rfl, ⟨hg.valid ho.valid, fun hnil => ?_, ?_⟩, hg.base⟩
    · rw [hg.base, hg.brk]
      exact ho.started hnil
    · exact ho.holds.of_mem hg.mem
  · have hne : a + blockSize ≠ null := by simp
    have hnone : s.owned (a + blockSize) = none := ho.holds.none_iff.mpr hs.fresh
    have hzero : heap.mem.bytes (a + blockSize) size = List.replicate size 0 := Memory.bytes_eq_replicate hs.zero
    refine ⟨_, heap, Function.update s.owned (a + blockSize) (some (List.replicate size 0)), bs', e, ?_,
      fun hr => (hne hr).elim, ⟨hs.valid, ?_, ?_⟩, hs.base⟩
    · rw [Ledger.receive, if_neg hne, hnone]
      rfl
    · rintro rfl
      exact absurd hs.block.1 List.not_mem_nil
    · rw [← hzero]
      exact ho.holds.insert (b := ⟨a, size, false⟩) hs.used hs.fresh hs.data

lemma free (ho : Owns s bs) {t : Blk} (ht : Used bs t) :
    ∃ bs', Owns ⟨mmFree t.data s.heap, Function.update s.owned t.data none⟩ bs' ∧
      (mmFree t.data s.heap).base = s.heap.base := by
  obtain ⟨bs', hv, hg, hu, hd⟩ := mmFree_spec ho.valid ht
  refine ⟨bs', ⟨hv, ?_, ho.holds.erase ho.valid ht hu fun c hc _ => hd c hc.1⟩, hg.base⟩
  rintro rfl
  exact absurd (hg.first.symm.trans hv.first) (ho.valid.first_ne_null ht.1)

lemma realloc (ho : Owns s bs) {t : Blk} (ht : Used bs t) {size : ℕ} (hn : size < wordSize)
    (hs : Sized s.heap size) :
    ∃ r heap owned bs', mmRealloc t.data size s.heap = some (r, heap) ∧
      s.owned.follow r (.realloc t.data size) = some owned ∧ Owns ⟨heap, owned⟩ bs' ∧ heap.base = s.heap.base := by
  have hown : s.owned t.data = some (s.heap.mem.bytes t.data t.size) := (ho.holds _ _).mpr ⟨t, ht, rfl, rfl⟩
  rcases mmRealloc_spec ho.valid ht hn hs with ⟨hn0, e⟩ | ⟨hn0, heap, e, hg⟩ | ⟨hn0, a, heap, bs', e, hm⟩
  · obtain ⟨bs', ho', hb⟩ := ho.free ht
    exact ⟨null, _, _, bs', e, if_pos hn0, ho', hb⟩
  · refine ⟨null, heap, s.owned, bs, e, ?_, ⟨hg.valid ho.valid, fun hnil => ?_, ho.holds.of_mem hg.mem⟩, hg.base⟩
    · rw [Ledger.follow, if_neg hn0, if_pos rfl]
    · rw [hg.base, hg.brk]
      exact ho.started hnil
  · -- the old block leaves the ledger, then the new one enters it
    have hrest : Holds heap (bs.filter (· ≠ t)) (Function.update s.owned t.data none) :=
      ho.holds.erase ho.valid ht (by simp [Used, and_right_comm]) hm.data
    have hne : a + blockSize ≠ null := by simp
    have hnone : Function.update s.owned t.data none (a + blockSize) = none := by
      rw [hrest.none_iff]
      rintro ⟨b, hb, hf, he⟩
      exact hm.fresh ⟨b, (List.mem_filter.mp hb).1, hf, he⟩
    refine ⟨_, heap, Function.update (Function.update s.owned t.data none) (a + blockSize)
      (some (resized (s.heap.mem.bytes t.data t.size) size)), bs', e, ?_, ⟨hm.valid, ?_, ?_⟩, hm.base⟩
    · rw [Ledger.follow, if_neg hn0, if_neg hne, hown]
      simp only [Ledger.receive, if_neg hne, hnone, Option.isSome_none, Bool.false_eq_true, if_false]
    · rintro rfl
      exact absurd ((hm.used _).mpr (Or.inl rfl)).1 List.not_mem_nil
    · rw [← hm.contents]
      refine hrest.insert (b := ⟨a, size, false⟩) (fun c => ?_) (hrest.none_iff.mp hnone) fun _ _ _ _ _ => rfl
      rw [hm.used]
      simp [Used, and_right_comm]

lemma store (ho : Owns s bs) {t : Blk} (ht : Used bs t) {i : ℕ} {b : UInt8} (hi : i < t.size) :
    Owns ⟨s.heap.memset (t.data + i) b 1,
      Function.update s.owned t.data (some ((s.heap.mem.bytes t.data t.size).set i b))⟩ bs := by
  obtain ⟨hv, hd⟩ := ho.valid.write (s.heap.memset (t.data + i) b 1) ht.1 ⟨rfl, rfl, rfl, rfl⟩ fun x hx =>
    mem_memset_outside (by
      simp only [Blk.data, Blk.stop] at *
      omega)
  refine ⟨hv, ho.started, ?_⟩
  rw [← Memory.bytes_fill_one]
  exact ho.holds.write ho.valid ht hd

lemma step (ho : Owns s bs) {fine : Heap → ℕ → Prop} {o : Op} (ha : o.Allowed fine s)
    (hfine : ∀ n, fine s.heap n → 0 < s.heap.brk ∧ n < wordSize ∧ Sized s.heap n) :
    ∃ s', s.step o = some s' ∧ (∃ bs', Owns s' bs') ∧ s'.heap.base = s.heap.base := by
  cases o with
  | malloc size =>
    obtain ⟨hpos, hn, hs⟩ := hfine size ha
    obtain ⟨r, heap, owned, bs', e, ef, -, ho', hb⟩ := ho.malloc hpos hn hs
    refine ⟨⟨heap, owned⟩, ?_, ⟨bs', ho'⟩, hb⟩
    simp only [Session.step, Op.run, e, Ledger.follow, ef, Option.bind_eq_bind, Option.bind_some]
    rfl
  | realloc ptr size =>
    obtain ⟨hpos, hn, hs⟩ := hfine size ha.2
    rcases ha.1 with rfl | hp
    · by_cases hn0 : size = 0
      · refine ⟨⟨s.heap, Function.update s.owned null none⟩, ?_, ⟨bs, ?_⟩, rfl⟩
        · simp only [Session.step, Op.run, mmRealloc, mmFree, if_pos hn0, if_true, Ledger.follow,
            Option.bind_eq_bind, Option.bind_some]
          rfl
        · rw [← ho.not_null, Function.update_eq_self]
          exact ho
      · obtain ⟨r, heap, owned, bs', e, ef, hr, ho', hb⟩ := ho.malloc hpos hn hs
        refine ⟨⟨heap, owned⟩, ?_, ⟨bs', ho'⟩, hb⟩
        have hfollow : s.owned.follow r (.realloc null size) = some owned := by
          rw [Ledger.follow, if_neg hn0, ho.not_null]
          split
          next hr0 => rw [hr hr0]
          next => exact ef
        simp only [Session.step, Op.run, mmRealloc, if_neg hn0, if_true, e, hfollow, Option.bind_eq_bind,
          Option.bind_some]
        rfl
    · obtain ⟨t, ht, rfl, -⟩ := ho.holds.live hp
      obtain ⟨r, heap, owned, bs', e, ef, ho', hb⟩ := ho.realloc ht hn hs
      refine ⟨⟨heap, owned⟩, ?_, ⟨bs', ho'⟩, hb⟩
      simp only [Session.step, Op.run, e, ef, Option.bind_eq_bind, Option.bind_some]
      rfl
  | free ptr =>
    rcases ha with rfl | hp
    · refine ⟨⟨s.heap, Function.update s.owned null none⟩, rfl, ⟨bs, ?_⟩, rfl⟩
      rw [← ho.not_null, Function.update_eq_self]
      exact ho
    · obtain ⟨t, ht, rfl, -⟩ := ho.holds.live hp
      obtain ⟨bs', ho', hb⟩ := ho.free ht
      exact ⟨_, rfl, ⟨bs', ho'⟩, hb⟩
  | store ptr i b =>
    have hp : (s.owned ptr).isSome := by
      cases hm : s.owned ptr with
      | none => simp [Op.Allowed, hm] at ha
      | some d => rfl
    obtain ⟨t, ht, rfl, hown⟩ := ho.holds.live hp
    have hi : i < t.size := by simpa [Op.Allowed, hown] using ha
    refine ⟨_, ?_, ⟨bs, ho.store ht (b := b) hi⟩, rfl⟩
    simp only [Session.step, Op.run, Ledger.follow, hown, Option.map_some, Option.bind_eq_bind, Option.bind_some]
    rfl

lemma start {h : Heap} (hfirst : h.first = null) (hbrk : h.base = h.brk ∧ h.brk ≤ h.limit.addr) :
    Owns (Session.start h) [] := by
  refine ⟨⟨⟨trivial, hfirst, List.Pairwise.nil, nofun, nofun, hbrk.1.le, hbrk.2⟩, List.isChain_nil⟩,
    fun _ => hbrk.1, fun p d => ?_⟩
  simp [Session.start, Used]

lemma represents (ho : Owns s bs) : Represents s.heap s.owned := by
  have hv := ho.valid
  refine ⟨fun p => ?_, ?_, ?_, ?_⟩
  · rw [hv.exists_blocks]
    constructor
    · intro hp
      obtain ⟨t, ht, rfl, -⟩ := ho.holds.live hp
      obtain ⟨_, _, hd⟩ := hv.get_header ht.1
      exact ⟨t, ht.1, by rw [hd.isFree, ht.2]; rfl, rfl⟩
    · rintro ⟨t, ht, hf, rfl⟩
      obtain ⟨_, _, hd⟩ := hv.get_header ht
      have hused : Used bs t := by
        refine ⟨ht, ?_⟩
        rw [hd.isFree] at hf
        cases hft : t.free
        · rfl
        · rw [hft] at hf
          cases hf
      exact Option.isSome_iff_exists.mpr ⟨_, (ho.holds _ _).mpr ⟨t, hused, rfl, rfl⟩⟩
  · rintro p d hd
    obtain ⟨t, -, rfl, rfl⟩ := (ho.holds p d).mp hd
    rw [Memory.length_bytes]
  · intro p q d e hd he hne
    obtain ⟨t, ht, rfl, rfl⟩ := (ho.holds p d).mp hd
    obtain ⟨u, hu, rfl, rfl⟩ := (ho.holds q e).mp he
    have := (hv.order ht.1 hu.1).resolve_left fun htu => hne (htu ▸ rfl)
    simp only [Memory.length_bytes, Blk.data, Blk.stop] at *
    omega
  · intro p d hd a ha
    obtain ⟨t, ht, rfl, rfl⟩ := (ho.holds p d).mp hd
    rw [hv.blocks_eq] at ha
    obtain ⟨c, hc, rfl⟩ := List.mem_map.mp ha
    rcases hv.order ht.1 hc with rfl | hord | hord
    · exact Or.inr le_rfl
    · simp only [Memory.length_bytes, Blk.data, Blk.stop] at *
      omega
    · simp only [Memory.length_bytes, Blk.data, Blk.stop] at *
      omega

end Owns

/-- Any sequence of calls on live pointers and stores into live blocks goes as the ledger says, and the memory
holds the ledger. -/
theorem blocks_keep_their_bytes (h : Heap) (ops : List Op) (hfirst : h.first = null)
    (hbrk : h.base = h.brk ∧ h.brk ≤ h.limit.addr)
    (ha : AllOk Session.step (Op.Allowed BelowBreak) (Session.start h) ops) :
    ∃ s, play Session.step (Session.start h) ops = some s ∧ Represents s.heap s.owned := by
  have hstep :
    ∀ s o, (∃ bs, Owns s bs) → o.Allowed BelowBreak s → ∃ s', s.step o = some s' ∧ ∃ bs', Owns s' bs' := by
    rintro s o ⟨bs, ho⟩ hs
    obtain ⟨s', e, ho', -⟩ := ho.step hs fun n hn => by
      have hlt := ho.valid.brk_lt
      refine ⟨?_, ?_, Or.inr (Or.inl hn)⟩ <;> simp only [BelowBreak, blockSize, wordSize] at * <;> omega
    exact ⟨s', e, ho'⟩
  obtain ⟨s, e, bs, ho⟩ := play_of_allOk (fun s => ∃ bs, Owns s bs) hstep ops ⟨[], Owns.start hfirst hbrk⟩ ha
  exact ⟨s, e, ho.represents⟩

def pageOps : List Op :=
  [.malloc 8, .store 4136 0 7, .store 4136 3 9, .malloc 16, .realloc 4136 4, .store 4240 1 5, .free 4184,
    .realloc 4240 12, .realloc 4136 900]

theorem blocks_keep_their_bytes_page :
    ∃ s, play Session.step (Session.start pageHeap) pageOps = some s ∧ Represents s.heap s.owned :=
  blocks_keep_their_bytes pageHeap pageOps rfl ⟨rfl, by decide⟩ (by decide)

end CourseArchive.MmAlloc
