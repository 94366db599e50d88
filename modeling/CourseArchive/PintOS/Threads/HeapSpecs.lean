import CourseArchive.PintOS.Threads.Arenas

/-! What `malloc`, `realloc`, `free` and the page allocator return, and what they keep. -/

namespace CourseArchive.PintOS.Threads

open Lib

structure Sound (L : Layout) (s : Heap) (us : List Chunk) (hs : List Holding) : Prop extends Laid L s us hs where
  covered : ∀ u ∈ us, ∀ b ∈ u.blocks L, u.HasFree s b ∨ b ∈ hs.map Holding.addr
  busy : ∀ u ∈ us, ∃ b ∈ u.blocks L, b ∈ hs.map Holding.addr

variable {L : Layout} {s s' : Heap} {us : List Chunk} {hs hs' : List Holding} {u : Chunk} {h : Holding} {b d n : ℕ}
  {rest : List ℕ}

lemma countP_mem_cons {xs : List ℕ} (hx : xs.Nodup) (hb : b ∈ xs) (hr : b ∉ rest) :
    (xs.countP fun x => x ∈ b :: rest) = (xs.countP fun x => x ∈ rest) + 1 := by
  have hp := List.perm_cons_erase hb
  rw [hp.countP_eq, hp.countP_eq, List.countP_cons_of_pos (by simp), List.countP_cons_of_neg (by simpa using hr)]
  congr 1
  refine List.countP_congr fun y hy => ?_
  have hne : y ≠ b := ((hx.mem_erase_iff).mp hy).1
  simp [hne]

namespace Heap

lemma get_set (s : Heap) (a v : ℕ) (f g : ArenaField) :
    (s.set a f v).get a g = if f = g then v % wordSize else s.get a g := by
  split
  · next heq =>
    subst heq
    exact (Memory.load_store ..).trans (by norm_num [wordSize])
  · next hne =>
    refine Memory.load_store_of_disjoint ?_
    cases f <;> cases g <;> simp_all [ArenaField.offset]

lemma changedIn_set (s : Heap) (a v : ℕ) (f : ArenaField) : ChangedIn ⟨a, arenaSize⟩ s.mem (s.set a f v).mem := by
  refine changedIn_store _ (Nat.le_add_right _ _) ?_
  cases f <;> simp [ArenaField.offset, arenaSize]

@[simp] lemma setFree_setFree (s : Heap) (d : ℕ) (bs cs : List ℕ) :
    (s.setFree d bs).setFree d cs = s.setFree d cs := by
  simp [setFree]

@[simp] lemma setFree_self (s : Heap) (d : ℕ) : s.setFree d (s.freeLists d) = s := by simp [setFree]

@[simp] lemma freeLists_setFree (s : Heap) (d : ℕ) (bs : List ℕ) :
    (s.setFree d bs).freeLists d = bs := by simp [setFree]

lemma freeLists_setFree_of_ne (s : Heap) (bs : List ℕ) {d e : ℕ} (h : e ≠ d) :
    (s.setFree d bs).freeLists e = s.freeLists e := by
  simp [setFree, h]

lemma pallocGetPage_eq (s : Heap) (flags : PallocFlags) :
    s.toPages.pallocGetPage flags = s.toPages.pallocGetMultiple flags 1 := rfl

lemma changedIn_initArena (s : Heap) (a owner cnt : ℕ) :
    ChangedIn ⟨a, arenaSize⟩ s.mem (s.initArena a owner cnt).mem :=
  ((s.changedIn_set a _ .magic).trans (changedIn_set _ a _ .desc)).trans (changedIn_set _ a _ .freeCnt)

lemma get_initArena (s : Heap) (a owner cnt : ℕ) : (s.initArena a owner cnt).get a .magic = arenaMagic ∧
    (s.initArena a owner cnt).get a .desc = owner % wordSize ∧
    (s.initArena a owner cnt).get a .freeCnt = cnt % wordSize := by
  simp only [initArena, get_set, reduceCtorEq, if_false, if_true]
  exact ⟨by decide, trivial, trivial⟩

section Loops

variable {a : ℕ} {is : List ℕ}

lemma arenaToBlock_eq (ha : a ≠ 0) (hmagic : s.get a .magic = arenaMagic)
    (howner : s.get a .desc = descPtr d) {i : ℕ}
    (hi : i < (desc d).blocksPerArena) : s.arenaToBlock a i = some (blockAt a d i) := by
  rw [arenaToBlock, howner]
  exact if_pos ⟨ha, hmagic, Nat.succ_ne_zero d, hi⟩

lemma foldlM_pushBlock (ha : a ≠ 0) (hmagic : s.get a .magic = arenaMagic) (howner : s.get a .desc = descPtr d)
    (his : ∀ i ∈ is, i < (desc d).blocksPerArena) :
    is.foldlM (pushBlock a d) s = some (s.setFree d (s.freeLists d ++ is.map (blockAt a d))) := by
  induction is generalizing s with
  | nil => simp
  | cons i is ih =>
    have hblock := arenaToBlock_eq ha hmagic howner (his i List.mem_cons_self)
    have hpush : pushBlock a d s i = some (s.setFree d (s.freeLists d ++ [blockAt a d i])) := by
      rw [pushBlock, hblock]
      rfl
    rw [List.foldlM_cons, hpush, Option.bind_eq_bind, Option.bind_some,
      ih (s := s.setFree d _) hmagic howner fun j hj => his j (List.mem_cons_of_mem i hj)]
    simp

lemma foldlM_removeBlock (ha : a ≠ 0) (hmagic : s.get a .magic = arenaMagic) (howner : s.get a .desc = descPtr d)
    (his : ∀ i ∈ is, i < (desc d).blocksPerArena) (hnodup : (is.map (blockAt a d)).Nodup)
    (hin : ∀ i ∈ is, blockAt a d i ∈ s.freeLists d) :
    is.foldlM (removeBlock a d) s = some (s.setFree d ((s.freeLists d).diff (is.map (blockAt a d)))) := by
  induction is generalizing s with
  | nil => simp
  | cons i is ih =>
    obtain ⟨hnew, hnodup⟩ := List.nodup_cons.mp hnodup
    have hblock := arenaToBlock_eq ha hmagic howner (his i List.mem_cons_self)
    have hremove : removeBlock a d s i = some (s.setFree d ((s.freeLists d).erase (blockAt a d i))) := by
      rw [removeBlock, hblock]
      exact if_pos (hin i List.mem_cons_self)
    -- the blocks that are still to go are others than this one
    have hrest : ∀ j ∈ is, blockAt a d j ∈ (s.setFree d ((s.freeLists d).erase (blockAt a d i))).freeLists d := by
      intro j hj
      have hne : blockAt a d j ≠ blockAt a d i := by
        intro heq
        rw [← heq] at hnew
        exact hnew (List.mem_map_of_mem hj)
      rw [freeLists_setFree, List.mem_erase_of_ne hne]
      exact hin j (List.mem_cons_of_mem i hj)
    rw [List.foldlM_cons, hremove, Option.bind_eq_bind, Option.bind_some,
      ih (s := s.setFree d _) hmagic howner (fun j hj => his j (List.mem_cons_of_mem i hj)) hnodup hrest,
      freeLists_setFree, setFree_setFree, List.map_cons, List.diff_cons]

end Loops

end Heap

namespace Chunk

lemma length_blocks (hd : u.use = .small d) : (u.blocks L).length = (desc d).blocksPerArena := by simp [blocks, hd]

lemma desc_lt (hu : u.Fits) (hd : u.use = .small d) : d < descs.length := by
  have hfit := hu.2
  simp only [hd] at hfit
  exact hfit.1

lemma blocks_eq (hd : u.use = .small d) :
    u.blocks L = (List.range (desc d).blocksPerArena).map (Heap.blockAt (u.addr L) d) := by simp [blocks, hd]

lemma blocksPerArena_lt (hu : u.Fits) (hd : u.use = .small d) : (desc d).blocksPerArena < wordSize := by
  obtain ⟨-, hbs, -, hspec⟩ := desc_spec (desc_lt hu hd)
  have hle : (desc d).blocksPerArena ≤ (desc d).blocksPerArena * (desc d).blockSize :=
    Nat.le_mul_of_pos_right _ hbs
  simp only [wordSize, pgSize, arenaSize] at *
  omega

end Chunk

lemma extents_cons (u : Chunk) (us : List Chunk) :
    extents (u :: us) = Function.update (extents us) u.pool (u.extent :: extents us u.pool) := by
  funext name
  by_cases hn : name = u.pool
  · subst hn
    simp [extents]
  · simp [extents, hn, Ne.symm hn]

namespace Laid

lemma header_eq (hu : u.use ≠ .client) :
    u.header L = ⟨u.addr L, arenaSize⟩ := by simp [Chunk.header, Chunk.headerSize, hu]

lemma takeBlock (hl : Laid L s us hs) (hlist : s.freeLists d = b :: rest) :
    ∃ s', s.takeBlock d = some (b, s') ∧ Laid L s' us hs ∧ s'.freeLists = Function.update s.freeLists d rest ∧
      s'.pools = s.pools ∧ ∃ u ∈ us, u.use = .small d ∧ b ∈ u.blocks L := by
  obtain ⟨u, hu, hd, hb⟩ := hl.free d b (hlist ▸ List.mem_cons_self)
  have hclient : u.use ≠ .client := by simp [hd]
  have hnodup := hl.nodup d
  rw [hlist] at hnodup
  obtain ⟨hnot, hnodup⟩ := List.nodup_cons.mp hnodup
  have harena := Chunk.blockToArena_block (hl.fits u hu) hb hclient (hl.header u hu)
  have hheader := hl.header u hu
  simp only [Chunk.HeaderIn, hd] at hheader
  have hblocks := Chunk.nodup_blocks (L := L) (hl.fits u hu)
  have hcount := countP_mem_cons hblocks hb hnot
  have hlen : (u.blocks L).countP (fun c => c ∈ b :: rest) ≤ (u.blocks L).length := List.countP_le_length
  have hsmall : (u.blocks L).length < wordSize := by
    rw [Chunk.length_blocks hd]
    exact Chunk.blocksPerArena_lt (hl.fits u hu) hd
  refine ⟨(s.setFree d rest).set (u.addr L) .freeCnt ((s.get (u.addr L) .freeCnt + wordSize - 1) % wordSize), ?_,
    ?_, rfl, rfl, u, hu, hd, hb⟩
  · rw [Heap.takeBlock, hlist]
    change ((s.setFree d rest).blockToArena b).bind _ = _
    rw [show (s.setFree d rest).blockToArena b = s.blockToArena b from rfl, harena]
    rfl
  · refine hl.flip hu hd hb (hl.not_held (hlist ▸ List.mem_cons_self)) rfl (fun x hx _ => ?_) (fun e c hc => ?_)
      (fun e he => ?_)
      (fun e => ?_) ?_
    · rw [header_eq hclient] at hx
      exact (Heap.changedIn_set (s.setFree d rest) (u.addr L) _ .freeCnt).agree hx
    · by_cases hed : e = d
      · subst hed
        simp [Heap.set, Heap.setFree, hlist, hc]
      · simp [Heap.set, Heap.setFree, hed]
    · by_contra hed
      simp only [Heap.set, Heap.setFree, Function.update_of_ne hed] at he
      obtain ⟨v, hv, hdv, hbv⟩ := hl.free e b he
      obtain rfl := hl.chunk_of_block hu hv hb hbv
      rw [hd] at hdv
      exact hed (Use.small.inj hdv).symm
    · by_cases hed : e = d
      · subst hed
        simpa [Heap.set, Heap.setFree] using hnodup
      · simpa [Heap.set, Heap.setFree, hed] using hl.nodup e
    · simp only [Chunk.HeaderIn, hd, Heap.get_set, reduceCtorEq, if_false, if_true]
      refine ⟨hheader.1, hheader.2.1, ?_⟩
      rw [hheader.2.2, hlist] at *
      have hfree : ((s.setFree d rest).set (u.addr L) .freeCnt
          (((u.blocks L).countP (fun c => c ∈ b :: rest) + wordSize - 1) % wordSize)).freeLists d = rest := by
        simp [Heap.set, Heap.setFree]
      rw [hfree, hcount, Nat.mod_mod, show ∀ k, k + 1 + wordSize - 1 = k + wordSize by omega, Nat.add_mod_right,
        Nat.mod_eq_of_lt (by omega)]

lemma newArena (hl : Laid L s us hs) {p : Pages} (hd : d < descs.length) (hempty : s.freeLists d = []) {i : ℕ}
    (hp : Owned L p (Function.update (extents us) .kernel (⟨i, 1⟩ :: extents us .kernel))) (hmem : p.mem = s.mem) :
    ∃ s', ({ s with toPages := p } : Heap).newArena (L.page .kernel i) d = some s' ∧
      s'.freeLists = Function.update s.freeLists d (Chunk.blocks L ⟨.kernel, ⟨i, 1⟩, .small d⟩) ∧
      Laid L s' (⟨.kernel, ⟨i, 1⟩, .small d⟩ :: us) hs := by
  set u : Chunk := ⟨.kernel, ⟨i, 1⟩, .small d⟩ with hu
  have hfits : u.Fits := ⟨Nat.one_pos, hd, rfl, rfl⟩
  have hdp : descPtr d < wordSize := by
    have hlen : descs.length = 7 := by decide
    simp only [descPtr, wordSize]
    omega
  set t : Heap := { s with toPages := p } with ht
  have hchanged := t.changedIn_initArena (L.page .kernel i) (descPtr d) (desc d).blocksPerArena
  obtain ⟨hmagic, howner, hcnt⟩ := t.get_initArena (L.page .kernel i) (descPtr d) (desc d).blocksPerArena
  rw [Nat.mod_eq_of_lt hdp] at howner
  set s' := (t.initArena (L.page .kernel i) (descPtr d) (desc d).blocksPerArena).setFree d (u.blocks L) with hs'
  have hnew : t.newArena (L.page .kernel i) d = some s' := by
    rw [Heap.newArena]
    refine (Heap.foldlM_pushBlock (L.page_pos .kernel i).ne' hmagic howner fun j hj =>
      List.mem_range.mp hj).trans ?_
    have hblocks : u.blocks L = (List.range (desc d).blocksPerArena).map (Heap.blockAt (L.page .kernel i) d) :=
      Chunk.blocks_eq rfl
    rw [hs', hblocks]
    simp [Heap.initArena, Heap.set, ht, hempty]
  have hfree : s'.freeLists d = u.blocks L := Heap.freeLists_setFree ..
  refine ⟨s', hnew, rfl, hl.addChunk ⟨?_, List.forall_mem_cons.mpr ⟨hfits, hl.fits⟩⟩ ?_ ?_ fun e => ?_⟩
  · rw [extents_cons]
    exact ⟨hp.base, hp.cnt, hp.taken⟩
  · rw [← hmem]
    refine fun x hx => hchanged x fun hx' => hx ⟨hx'.1, hx'.2.trans_le ?_⟩
    simp [Chunk.region, Layout.region, hu, arenaSize, pgSize]
  · refine ⟨hmagic, howner, ?_⟩
    change (t.initArena _ _ _).get (L.page .kernel i) .freeCnt = _
    rw [hcnt, Nat.mod_eq_of_lt (Chunk.blocksPerArena_lt hfits rfl), List.countP_eq_length.mpr,
      Chunk.length_blocks rfl]
    intro c hc
    simpa [hfree] using hc
  · by_cases he : e = d
    · subst he
      rw [hfree, hempty, if_pos rfl, List.nil_append]
    · rw [if_neg (by simpa [hu] using Ne.symm he), List.append_nil]
      exact Heap.freeLists_setFree_of_ne _ _ he

lemma putBlock (hl : Laid L s us hs) (hu : u ∈ us) (hd : u.use = .small d) (hb : b ∈ u.blocks L)
    (hfree : b ∉ s.freeLists d) (hbs : b ∉ hs.map Holding.addr) :
    Laid L (s.putBlock (u.addr L) d b) us hs := by
  change Laid L (((s.fill b 0xcc (desc d).blockSize).setFree d (b :: s.freeLists d)).set (u.addr L) .freeCnt
    (((s.fill b 0xcc (desc d).blockSize).get (u.addr L) .freeCnt + 1) % wordSize)) us hs
  have hclient : u.use ≠ .client := by simp [hd]
  have hfits := hl.fits u hu
  have hroom : u.room b = ⟨b, (desc d).blockSize⟩ := by simp [Chunk.room, Chunk.roomSize, hd]
  have hheader := hl.header u hu
  simp only [Chunk.HeaderIn, hd] at hheader
  set s₁ := s.fill b 0xcc (desc d).blockSize with hs₁
  have hfill : ChangedIn (u.room b) s.mem s₁.mem := by
    rw [hroom]
    exact changedIn_fill _ le_rfl le_rfl
  have hget : ∀ f, s₁.get (u.addr L) f = s.get (u.addr L) f := fun f => by
    refine get_of_agree ?_ f
    rw [← header_eq hclient]
    exact hfill.agree (hl.header_room_apart hu hu hb).symm
  have hcount := countP_mem_cons (Chunk.nodup_blocks (L := L) hfits) hb hfree
  have hlen : (u.blocks L).countP (fun c => c ∈ b :: s.freeLists d) ≤ (u.blocks L).length := List.countP_le_length
  have hsmall := Chunk.blocksPerArena_lt hfits hd
  rw [Chunk.length_blocks hd] at hlen
  refine hl.flip hu hd hb hbs rfl (fun x hx hx' => ?_) (fun e c hc => ?_) (fun e he => ?_) (fun e => ?_) ?_
  · rw [header_eq hclient] at hx
    exact (hfill.agree hx').trans
      ((Heap.changedIn_set (s₁.setFree d (b :: s.freeLists d)) (u.addr L) _ .freeCnt).agree hx)
  · by_cases hed : e = d
    · subst hed
      simp [Heap.set, Heap.setFree, hc]
    · simp [Heap.set, Heap.setFree, hed, hs₁, Heap.fill]
  · by_contra hed
    simp only [Heap.set, Heap.setFree, Function.update_of_ne hed] at he
    obtain ⟨v, hv, hdv, hbv⟩ := hl.free e b he
    obtain rfl := hl.chunk_of_block hu hv hb hbv
    rw [hd] at hdv
    exact hed (Use.small.inj hdv).symm
  · by_cases hed : e = d
    · subst hed
      simpa [Heap.set, Heap.setFree] using ⟨hfree, hl.nodup e⟩
    · simpa [Heap.set, Heap.setFree, hed, hs₁, Heap.fill] using hl.nodup e
  · simp only [Chunk.HeaderIn, hd, Heap.get_set, reduceCtorEq, if_false, if_true]
    change s₁.get _ _ = _ ∧ s₁.get _ _ = _ ∧ _
    rw [hget, hget, hget, hheader.2.2]
    refine ⟨hheader.1, hheader.2.1, ?_⟩
    have hlist : ((s₁.setFree d (b :: s.freeLists d)).set (u.addr L) .freeCnt
        (((u.blocks L).countP (fun c => c ∈ s.freeLists d) + 1) % wordSize)).freeLists d = b :: s.freeLists d := by
      simp [Heap.set, Heap.setFree]
    rw [hlist, hcount, Nat.mod_mod, Nat.mod_eq_of_lt (by omega)]

end Laid

def pagesFor (size : ℕ) : ℕ := if size ≤ pgSize / 4 then 1 else (size + arenaSize + pgSize - 1) / pgSize

def NoGroup (L : Layout) (s : Pages) (name : PoolName) (c : ℕ) : Prop :=
  ∀ i, i + c ≤ L.cnt name → ∃ k < c, (s.pools name).usedMap.bits (i + k) = true

namespace Placed

lemma pallocFree {p : Pages} (hp : Placed L p (u :: us)) :
    ∃ q, p.pallocFreeMultiple (u.addr L) u.extent.cnt = some q ∧
    Placed L q us ∧ ChangedIn (u.region L) p.mem q.mem := by
  have hperm : (extents (u :: us) u.pool).Perm (u.extent :: extents us u.pool) := by
    rw [extents_cons, Function.update_self]
  obtain ⟨q, hfree, howned, hmem⟩ := hp.owned.pallocFreeMultiple hperm
  refine ⟨q, hfree, ⟨?_, fun v hv => hp.fits v (List.mem_cons_of_mem u hv)⟩, hmem ▸ changedIn_fill _ le_rfl le_rfl⟩
  rwa [extents_cons, Function.update_idem, Function.update_eq_self] at howned

end Placed

namespace Sound

lemma addHeld (hl : Sound L s us hs) (hp : Placed L s'.toPages (u :: us))
    (hmem : ChangedIn (u.region L) s.mem s'.mem)
    (hheader : u.HeaderIn L s') (hfree : s'.freeLists = s.freeLists) (huse : ∀ d, u.use ≠ .small d)
    (hb : u.blocks L = [b])
    (hpos : 0 < n) (hn : n ≤ u.roomSize) {pages : Bool} (hpages : pages = true ↔ u.use = .client)
    (hall : u.use = .client → n = u.roomSize) : Sound L s' (u :: us) (⟨b, s'.mem.bytes b n, pages⟩ :: hs) := by
  have hlaid := hl.addChunk hp hmem hheader fun e => by rw [hfree, if_neg (huse e), List.append_nil]
  have hbu : b ∈ u.blocks L := hb ▸ List.mem_cons_self
  have hnew : b ∉ hs.map Holding.addr := by
    intro hin
    obtain ⟨k, hk, rfl⟩ := List.mem_map.mp hin
    obtain ⟨v, hv, hbv, -⟩ := hl.held k hk
    obtain rfl := hp.chunk_of_block List.mem_cons_self (List.mem_cons_of_mem u hv) hbu hbv
    exact (List.nodup_cons.mp hp.nodup_chunks).1 hv
  refine ⟨hlaid.hold List.mem_cons_self hbu ?_ hnew hpos hn hpages hall, ?_, ?_⟩
  · rintro ⟨d, hd, -⟩
    exact huse d hd
  · refine List.forall_mem_cons.mpr ⟨fun c hc => ?_, fun v hv c hc => ?_⟩
    · rw [hb, List.mem_singleton] at hc
      exact .inr (hc ▸ List.mem_cons_self)
    · refine (hl.covered v hv c hc).imp ?_ fun hin => List.mem_cons_of_mem b hin
      rintro ⟨e, he, hin⟩
      exact ⟨e, he, hfree ▸ hin⟩
  · refine List.forall_mem_cons.mpr ⟨⟨b, hbu, List.mem_cons_self⟩, fun v hv => ?_⟩
    obtain ⟨c, hc, hin⟩ := hl.busy v hv
    exact ⟨c, hc, List.mem_cons_of_mem b hin⟩

lemma dropped (hl : Laid L s (u :: us) hs)
    (hcovered : ∀ v ∈ us, ∀ b ∈ v.blocks L, v.HasFree s b ∨ b ∈ hs.map Holding.addr)
    (hbusy : ∀ v ∈ us, ∃ b ∈ v.blocks L, b ∈ hs.map Holding.addr) (hp : Placed L s'.toPages us)
    (hmem : ChangedIn (u.region L) s.mem s'.mem) (hheld : ∀ k ∈ hs, k.addr ∉ u.blocks L)
    (hfree : ∀ e c, c ∈ s'.freeLists e ↔ c ∈ s.freeLists e ∧ c ∉ u.blocks L)
    (hnodup : ∀ e, (s'.freeLists e).Nodup) :
    Sound L s' us hs := by
  refine ⟨hl.dropChunk hp hmem hheld hfree hnodup, fun v hv b hb => (hcovered v hv b hb).imp_left ?_, hbusy⟩
  rintro ⟨e, he, hin⟩
  refine ⟨e, he, (hfree e b).mpr ⟨hin, fun hbu => ?_⟩⟩
  obtain rfl := hl.chunk_of_block List.mem_cons_self (List.mem_cons_of_mem u hv) hbu hb
  exact (List.nodup_cons.mp hl.nodup_chunks).1 hv

lemma perm (hl : Sound L s us hs) {us' : List Chunk} (hu : us.Perm us') (hh : hs.Perm hs') :
    Sound L s us' hs' where
  toLaid := hl.toLaid.perm hu hh
  covered u hmem b hb := (hl.covered u (hu.mem_iff.mpr hmem) b hb).imp_right (hh.map _).mem_iff.mp
  busy u hmem := by
    obtain ⟨b, hb, hin⟩ := hl.busy u (hu.mem_iff.mpr hmem)
    exact ⟨b, hb, (hh.map _).mem_iff.mp hin⟩

lemma refill (hl : Sound L s us hs) (hd : d < descs.length) :
    (s.refill d = some (false, s) ∧ NoGroup L s.toPages .kernel 1) ∨
    ∃ s' us', s.refill d = some (true, s') ∧ s'.freeLists d ≠ [] ∧ Laid L s' us' hs ∧
      (∀ u ∈ us', ∀ b ∈ u.blocks L, u.HasFree s' b ∨ b ∈ hs.map Holding.addr) ∧
      ∀ u ∈ us', (∃ b ∈ u.blocks L, b ∈ hs.map Holding.addr) ∨ ∀ b ∈ s'.freeLists d, b ∈ u.blocks L := by
  by_cases hempty : s.freeLists d = []
  · rcases hl.owned.pallocGetMultiple Heap.noFlags Nat.one_pos rfl with ⟨i, p, hget, hp, hmem⟩ | ⟨hget, hnone⟩
    · right
      obtain ⟨s', hnew, hlists, hlaid⟩ := hl.newArena hd hempty hp hmem
      have hblocks :
        s'.freeLists d = Chunk.blocks L ⟨.kernel, ⟨i, 1⟩, .small d⟩ := by rw [hlists, Function.update_self]
      have hother : ∀ e ≠ d, s'.freeLists e = s.freeLists e := fun e he => by rw [hlists, Function.update_of_ne he]
      refine ⟨s', _, ?_, ?_, hlaid, List.forall_mem_cons.mpr ⟨fun b hb => ?_, fun u hu b hb => ?_⟩,
        List.forall_mem_cons.mpr ⟨.inr fun b hb => ?_, fun u hu => .inl (hl.busy u hu)⟩⟩
      · rw [Heap.refill, if_neg (by simpa using hempty), Heap.pallocGetPage_eq, hget]
        change (if L.page .kernel i = 0 then _
          else (Heap.newArena { s with toPages := p } (L.page .kernel i) d).bind _) = _
        rw [if_neg (L.page_pos .kernel i).ne', hnew]
        rfl
      · rw [hblocks]
        have hpos := (desc_spec hd).1
        rw [← List.length_pos_iff_ne_nil, Chunk.length_blocks rfl]
        exact hpos
      · exact .inl ⟨d, rfl, hblocks ▸ hb⟩
      · refine (hl.covered u hu b hb).imp_left ?_
        rintro ⟨e, he, hin⟩
        refine ⟨e, he, ?_⟩
        rw [hother e]
        · exact hin
        · rintro rfl
          rw [hempty] at hin
          cases hin
      · rwa [hblocks] at hb
    · left
      refine ⟨?_, hnone⟩
      rw [Heap.refill, if_neg (by simpa using hempty), Heap.pallocGetPage_eq, hget]
      rfl
  · right
    exact ⟨s, us, by
      rw [Heap.refill, if_pos hempty], hempty, hl.toLaid, hl.covered, fun u hu => .inl (hl.busy u hu)⟩

lemma mallocSmall (hl : Sound L s us hs) (hd : d < descs.length) (hn : 0 < n) (hfit : n ≤ (desc d).blockSize) :
    (s.refill d = some (false, s) ∧ NoGroup L s.toPages .kernel 1) ∨
    ∃ t b s' us', s.refill d = some (true, t) ∧ t.takeBlock d = some (b, s') ∧ b ≠ 0 ∧
      Sound L s' us' (⟨b, s'.mem.bytes b n, false⟩ :: hs) := by
  refine (hl.refill hd).imp_right ?_
  rintro ⟨t, us', hrefill, hne, hlaid, hcovered, hbusy⟩
  obtain ⟨b, rest, hlist⟩ := List.exists_cons_of_ne_nil hne
  obtain ⟨s', htake, hlaid', hfree, -, u, hu, hud, hbu⟩ := hlaid.takeBlock hlist
  have hfits := hlaid.fits u hu
  have hnodup := hlaid.nodup d
  rw [hlist] at hnodup
  have hnot : ¬u.HasFree s' b := by
    rintro ⟨e, he, hin⟩
    obtain rfl : d = e := Use.small.inj (hud.symm.trans he)
    rw [hfree, Function.update_self] at hin
    exact (List.nodup_cons.mp hnodup).1 hin
  have hbpos : b ≠ 0 := by
    have hin := Chunk.room_inside hfits hbu
    have hpos := L.page_pos u.pool u.extent.start
    change 0 < u.addr L at hpos
    omega
  refine ⟨t, b, s', us', hrefill, htake, hbpos, ?_, fun v hv c hc => ?_, fun v hv => ?_⟩
  · refine hlaid'.hold hu hbu hnot (hlaid.not_held (hlist ▸ List.mem_cons_self)) hn ?_ (by simp [hud])
      (by simp [hud])
    simpa [Chunk.roomSize, hud] using hfit
  · simp only [List.map_cons, List.mem_cons]
    rcases hcovered v hv c hc with ⟨e, he, hin⟩ | hheld
    · by_cases hcb : c = b
      · exact .inr (.inl hcb)
      · left
        refine ⟨e, he, ?_⟩
        rw [hfree]
        by_cases hed : e = d
        · subst hed
          rw [hlist] at hin
          rw [Function.update_self]
          exact (List.mem_cons.mp hin).resolve_left hcb
        · rwa [Function.update_of_ne hed]
    · exact .inr (.inr hheld)
  · rcases hbusy v hv with ⟨c, hc, hheld⟩ | hall
    · exact ⟨c, hc, List.mem_cons_of_mem b hheld⟩
    · exact ⟨b, hall b (hlist ▸ List.mem_cons_self), List.mem_cons_self⟩

lemma pallocGet (hl : Sound L s us hs) {c : ℕ} {flags : PallocFlags} (hc : 0 < c)
    (hassert : flags.assert = false) :
    (s.toPages.pallocGetMultiple flags c = some (0, s.toPages) ∧ NoGroup L s.toPages flags.pool c) ∨
    ∃ p q us', s.toPages.pallocGetMultiple flags c = some (p, q) ∧ p ≠ 0 ∧
      Sound L { s with toPages := q } us' (⟨p, q.mem.bytes p (pgSize * c), true⟩ :: hs) ∧
      (flags.zero = true → q.mem.bytes p (pgSize * c) = List.replicate (pgSize * c) 0) := by
  rcases hl.owned.pallocGetMultiple flags hc hassert with ⟨i, q, hget, hq, hmem⟩ | hnone
  · right
    set u : Chunk := ⟨flags.pool, ⟨i, c⟩, .client⟩ with hu
    have hpos : 0 < pgSize * c := Nat.mul_pos (by decide) hc
    have hplaced : Placed L q (u :: us) := by
      refine ⟨?_, List.forall_mem_cons.mpr ⟨⟨hc, trivial⟩, hl.fits⟩⟩
      rw [extents_cons]
      exact hq
    have hchanged : ChangedIn (u.region L) s.mem q.mem := by
      rw [hmem]
      split
      · exact changedIn_fill _ le_rfl le_rfl
      · exact fun _ _ => rfl
    have hblocks : u.blocks L = [L.page flags.pool i] := rfl
    have hheader : u.HeaderIn L ({ s with toPages := q } : Heap) := trivial
    have hsize : pgSize * c ≤ u.roomSize := le_rfl
    refine ⟨_, q, u :: us, hget, (L.page_pos flags.pool i).ne', ?_, fun hz => ?_⟩
    · exact hl.addHeld hplaced hchanged hheader rfl (by simp [hu]) hblocks hpos hsize (by simp [hu]) fun _ => rfl
    · rw [hmem, if_pos hz]
      exact Memory.bytes_eq_replicate fun j hj => if_pos ⟨Nat.le_add_right _ _, by omega⟩
  · exact .inl hnone

lemma mallocBig (hl : Sound L s us hs) (hbig : pgSize / 4 < n) (hn : n + arenaSize ≤ wordSize) :
    (s.mallocBig n = some (0, s) ∧ NoGroup L s.toPages .kernel ((n + arenaSize + pgSize - 1) / pgSize)) ∨
    ∃ p s' us', s.mallocBig n = some (p, s') ∧ p ≠ 0 ∧ Sound L s' us' (⟨p, s'.mem.bytes p n, false⟩ :: hs) := by
  set c := divRoundUp32 ((n + arenaSize) % wordSize) pgSize with hcdef
  rcases Nat.eq_zero_or_pos c with hzero | hc
  · left
    have hlarge : 2 ^ 20 ≤ (n + arenaSize + pgSize - 1) / pgSize := by
      simp only [hcdef, divRoundUp32, wordSize, arenaSize, pgSize] at *
      omega
    refine ⟨?_, fun i hi => ?_⟩
    · rw [Heap.mallocBig, ← hcdef, hzero]
      rfl
    · have hbound := L.bounded .kernel
      have hpos := L.positive .kernel
      simp only [pgSize] at *
      omega
  · have hceil : c = (n + arenaSize + pgSize - 1) / pgSize := by
      simp only [hcdef, divRoundUp32, wordSize, arenaSize, pgSize] at *
      omega
    have hfit : n + arenaSize ≤ pgSize * c := by
      rw [hceil]
      simp only [pgSize]
      omega
    rw [← hceil]
    rcases hl.owned.pallocGetMultiple Heap.noFlags hc rfl with ⟨i, q, hget, hq, hmem⟩ | ⟨hget, hnone⟩
    · right
      set u : Chunk := ⟨.kernel, ⟨i, c⟩, .big⟩ with hu
      set t : Heap := { s with toPages := q } with ht
      have hcw : c < wordSize := by
        have hin := (hq.taken .kernel).inside ⟨i, c⟩ (by simp [Heap.noFlags, PallocFlags.pool])
        have hbound := L.bounded .kernel
        simp only [wordSize, pgSize] at *
        omega
      obtain ⟨hmagic, howner, hcnt⟩ := t.get_initArena (L.page .kernel i) 0 c
      have hplaced : Placed L (t.initArena (L.page .kernel i) 0 c).toPages (u :: us) := by
        refine ⟨?_, List.forall_mem_cons.mpr ⟨⟨hc, rfl⟩, hl.fits⟩⟩
        rw [extents_cons]
        exact ⟨hq.base, hq.cnt, hq.taken⟩
      have hchanged : ChangedIn (u.region L) s.mem (t.initArena (L.page .kernel i) 0 c).mem := by
        rw [show s.mem = t.mem from hmem.symm]
        refine fun x hx => t.changedIn_initArena _ _ _ x fun hx' => hx ⟨hx'.1, hx'.2.trans_le ?_⟩
        simp only [Chunk.region, Layout.region, hu]
        omega
      have hheader : u.HeaderIn L (t.initArena (L.page .kernel i) 0 c) :=
        ⟨hmagic, howner, hcnt.trans (Nat.mod_eq_of_lt hcw)⟩
      have hblocks : u.blocks L = [L.page .kernel i + arenaSize] := rfl
      have hsize : n ≤ u.roomSize := by
        simp only [Chunk.roomSize, hu]
        omega
      refine ⟨L.page .kernel i + arenaSize, t.initArena (L.page .kernel i) 0 c, u :: us,
        ?_, by simp [arenaSize], ?_⟩
      · rw [Heap.mallocBig, ← hcdef, hget]
        change some (if L.page .kernel i = 0 then _ else _) = _
        rw [if_neg (L.page_pos .kernel i).ne']
        rfl
      · exact hl.addHeld hplaced hchanged hheader rfl (by simp [hu]) hblocks (by omega) hsize (by simp [hu])
          (by simp [hu])
    · left
      refine ⟨?_, hnone⟩
      rw [Heap.mallocBig, ← hcdef, hget]
      rfl

lemma malloc (hl : Sound L s us hs) (hpos : 0 < n) (hn : n + arenaSize ≤ wordSize) :
    (s.malloc n = some (0, s) ∧ NoGroup L s.toPages .kernel (pagesFor n)) ∨
    ∃ p s' us', s.malloc n = some (p, s') ∧ p ≠ 0 ∧ Sound L s' us' (⟨p, s'.mem.bytes p n, false⟩ :: hs) := by
  rw [Heap.malloc, if_neg hpos.ne']
  have hlast : (desc 6).blockSize = pgSize / 4 := by decide
  set d := descs.findIdx fun d => decide (n ≤ d.blockSize) with hd
  have hle : d ≤ descs.length := List.findIdx_le_length
  rcases Nat.lt_or_eq_of_le hle with hlt | heq
  · have hfit : n ≤ (desc d).blockSize := by
      have hfound := List.findIdx_getElem (w := hlt)
      rw [desc, List.getD_eq_getElem?_getD, List.getElem?_eq_getElem hlt]
      exact of_decide_eq_true hfound
    have hsize : n ≤ pgSize / 4 := by
      refine hfit.trans ?_
      have hlen : descs.length = 7 := by decide
      rw [hlen] at hlt
      interval_cases d <;> decide
    rw [if_neg hlt.ne, pagesFor, if_pos hsize]
    rcases hl.mallocSmall hlt hpos hfit with ⟨hrefill, hnone⟩ | ⟨t, b, s', us', hrefill, htake, hb, hsound⟩
    · left
      refine ⟨?_, hnone⟩
      simp only [hrefill, Option.bind_eq_bind, Option.bind_some, Bool.false_eq_true, if_false]
    · right
      refine ⟨b, s', us', ?_, hb, hsound⟩
      simp only [hrefill, Option.bind_eq_bind, Option.bind_some, if_true, htake]
  · have hsize : ¬n ≤ pgSize / 4 := by
      intro hle'
      have hall := List.findIdx_eq_length.mp heq
      have hmem : desc 6 ∈ descs := by decide
      have := hall (desc 6) hmem
      simp only [decide_eq_false_iff_not, hlast] at this
      exact this hle'
    rw [if_pos heq, pagesFor, if_neg hsize]
    exact hl.mallocBig (Nat.lt_of_not_le hsize) hn

lemma freeLists_putBlock (s : Heap) (a d p : ℕ) :
    (s.putBlock a d p).freeLists = Function.update s.freeLists d (p :: s.freeLists d) := rfl

lemma free_small (hl : Sound L s us hs) (hu : u ∈ us) (hd : u.use = .small d) (hb : b ∈ u.blocks L) {t : Heap}
    (ht : s.putBlock (u.addr L) d b = t) :
    s.free b = if (desc d).blocksPerArena ≤ t.get (u.addr L) .freeCnt then
      if t.get (u.addr L) .freeCnt = (desc d).blocksPerArena then t.retire (u.addr L) d else none else some t := by
  have hfits := hl.fits u hu
  have harena := Chunk.blockToArena_block hfits hb (by simp [hd]) (hl.header u hu)
  have hheader := hl.header u hu
  simp only [Chunk.HeaderIn, hd] at hheader
  have hpos : b ≠ 0 := by
    have hin := Chunk.room_inside hfits hb
    have hpage : 0 < u.addr L := L.page_pos u.pool u.extent.start
    omega
  rw [Heap.free, if_neg hpos]
  simp only [harena, Option.bind_eq_bind, Option.bind_some, hheader.2.1, descPtr, Nat.add_sub_cancel]
  rw [if_pos (Nat.succ_ne_zero d), ht]

lemma covered_putBlock (hl : Sound L s us (h :: hs)) (hu : u ∈ us) (hd : u.use = .small d)
    (hb : h.addr ∈ u.blocks L) :
    ∀ v ∈ us, ∀ b ∈ v.blocks L, v.HasFree (s.putBlock (u.addr L) d h.addr) b ∨ b ∈ hs.map Holding.addr := by
  intro v hv b hbv
  rcases hl.covered v hv b hbv with ⟨e, he, hin⟩ | hin
  · refine .inl ⟨e, he, ?_⟩
    rw [freeLists_putBlock]
    by_cases hed : e = d
    · subst hed
      rw [Function.update_self]
      exact List.mem_cons_of_mem _ hin
    · rwa [Function.update_of_ne hed]
  · rcases List.mem_cons.mp hin with rfl | hin
    · obtain rfl := hl.chunk_of_block hu hv hb hbv
      refine .inl ⟨d, hd, ?_⟩
      rw [freeLists_putBlock, Function.update_self]
      exact List.mem_cons_self
    · exact .inr hin

lemma busy_other (hl : Sound L s us (h :: hs)) (hu : u ∈ us) (hb : h.addr ∈ u.blocks L) {v : Chunk} (hv : v ∈ us)
    (hne : v ≠ u) : ∃ b ∈ v.blocks L, b ∈ hs.map Holding.addr := by
  obtain ⟨b, hbv, hin⟩ := hl.busy v hv
  refine ⟨b, hbv, (List.mem_cons.mp hin).resolve_left ?_⟩
  rintro rfl
  exact hne (hl.chunk_of_block hv hu hbv hb)

lemma retire (hl : Laid L s us hs) (hu : u ∈ us) (hd : u.use = .small d)
    (hall : ∀ b ∈ u.blocks L, b ∈ s.freeLists d)
    (hcovered : ∀ v ∈ us, ∀ b ∈ v.blocks L, v.HasFree s b ∨ b ∈ hs.map Holding.addr)
    (hbusy : ∀ v ∈ us, v ≠ u → ∃ b ∈ v.blocks L, b ∈ hs.map Holding.addr) :
    ∃ s' us', s.retire (u.addr L) d = some s' ∧ Sound L s' us' hs := by
  -- an arena all blocks of which are on the free list goes back to the page allocator
  have hfits := hl.fits u hu
  have hheader := hl.header u hu
  simp only [Chunk.HeaderIn, hd] at hheader
  have hone : u.extent.cnt = 1 := by
    have hfit := hfits.2
    simp only [hd] at hfit
    exact hfit.2.2
  have hperm := List.perm_cons_erase hu
  obtain ⟨q, hq, hplaced, hchanged⟩ := (hl.perm hperm (List.Perm.refl hs)).toPlaced.pallocFree
  rw [hone] at hq
  have hblocks := Chunk.blocks_eq (L := L) hd
  have hpos : u.addr L ≠ 0 := (L.page_pos u.pool u.extent.start).ne'
  have hloop := Heap.foldlM_removeBlock (s := s) hpos hheader.1 hheader.2.1
    (fun i hi => List.mem_range.mp hi) (hblocks ▸ Chunk.nodup_blocks hfits)
    fun i hi => hall _ (hblocks ▸ List.mem_map_of_mem hi)
  rw [← hblocks] at hloop
  have hmem_erase : ∀ v ∈ us.erase u, v ∈ us ∧ v ≠ u := fun v hv =>
    ⟨List.mem_of_mem_erase hv, ((hl.nodup_chunks.mem_erase_iff).mp hv).1⟩
  refine ⟨{ s.setFree d ((s.freeLists d).diff (u.blocks L)) with toPages := q }, us.erase u, ?_, ?_⟩
  · rw [Heap.retire, hloop]
    change (s.toPages.pallocFreeMultiple (u.addr L) 1).bind _ = _
    rw [hq]
    rfl
  · refine dropped (hl.perm hperm (List.Perm.refl hs)) (fun v hv => hcovered v (hmem_erase v hv).1)
      (fun v hv => hbusy v (hmem_erase v hv).1 (hmem_erase v hv).2) hplaced hchanged (fun k hk hin => ?_)
      (fun e c => ?_)
      fun e => ?_
    · obtain ⟨v, hv, hbv, hfreek, -⟩ := hl.held k hk
      obtain rfl := hl.chunk_of_block hu hv hin hbv
      exact hfreek ⟨d, hd, hall k.addr hin⟩
    · by_cases hed : e = d
      · subst hed
        simp [Heap.setFree, (hl.nodup e).mem_sdiff_iff]
      · simp only [Heap.setFree, Function.update_of_ne hed]
        refine ⟨fun hc => ⟨hc, fun hcu => ?_⟩, And.left⟩
        obtain ⟨v, hv, hdv, hcv⟩ := hl.free e c hc
        obtain rfl := hl.chunk_of_block hu hv hcu hcv
        rw [hd] at hdv
        exact hed (Use.small.inj hdv).symm
    · by_cases hed : e = d
      · subst hed
        simpa [Heap.setFree] using (hl.nodup e).diff
      · simpa [Heap.setFree, hed] using hl.nodup e

lemma busy_of_not_full (hl : Laid L s us hs) (hd : u.use = .small d) (hu : u ∈ us)
    (hcovered : ∀ v ∈ us, ∀ b ∈ v.blocks L, v.HasFree s b ∨ b ∈ hs.map Holding.addr)
    (hfull : ¬(desc d).blocksPerArena ≤ s.get (u.addr L) .freeCnt) :
    ∃ b ∈ u.blocks L, b ∈ hs.map Holding.addr := by
  have hheader := hl.header u hu
  simp only [Chunk.HeaderIn, hd] at hheader
  by_contra! hnone
  refine hfull (ge_of_eq ?_)
  rw [hheader.2.2, ← Chunk.length_blocks (L := L) hd, List.countP_eq_length]
  intro b hbv
  obtain ⟨e, he, hin⟩ := (hcovered u hu b hbv).resolve_right (hnone b hbv)
  obtain rfl : d = e := Use.small.inj (hd.symm.trans he)
  simpa using hin

lemma freeSmall (hl : Sound L s us (h :: hs)) (hu : u ∈ us) (hd : u.use = .small d) (hb : h.addr ∈ u.blocks L)
    (hnot : ¬u.HasFree s h.addr) : ∃ s' us', s.free h.addr = some s' ∧ Sound L s' us' hs := by
  have hfree : h.addr ∉ s.freeLists d := fun hin => hnot ⟨d, hd, hin⟩
  have hput := hl.drop.putBlock hu hd hb hfree (List.nodup_cons.mp hl.distinct).1
  have hcovered := hl.covered_putBlock hu hd hb
  have hbusy : ∀ v ∈ us, v ≠ u → ∃ b ∈ v.blocks L, b ∈ hs.map Holding.addr := fun v hv => hl.busy_other hu hb hv
  rw [hl.free_small hu hd hb rfl]
  generalize s.putBlock (u.addr L) d h.addr = t at *
  have hcount := hput.header u hu
  simp only [Chunk.HeaderIn, hd] at hcount
  have hle : (u.blocks L).countP (fun b => b ∈ t.freeLists d) ≤ (u.blocks L).length := List.countP_le_length
  rw [Chunk.length_blocks hd] at hle
  by_cases hfull : (desc d).blocksPerArena ≤ t.get (u.addr L) .freeCnt
  · have heq : t.get (u.addr L) .freeCnt = (desc d).blocksPerArena := by omega
    rw [if_pos hfull, if_pos heq]
    rw [hcount.2.2, ← Chunk.length_blocks (L := L) hd, List.countP_eq_length] at heq
    exact retire hput hu hd (fun b hbu => by simpa using heq b hbu) hcovered hbusy
  · rw [if_neg hfull]
    refine ⟨t, us, rfl, hput, hcovered, fun v hv => ?_⟩
    by_cases hvu : v = u
    · subst hvu
      exact busy_of_not_full hput hd hv hcovered hfull
    · exact hbusy v hv hvu

lemma dropHeld (hl : Sound L s (u :: us) (h :: hs)) (huse : ∀ d, u.use ≠ .small d) (hb : u.blocks L = [h.addr])
    {q : Pages}
    (hp : Placed L q us) (hmem : ChangedIn (u.region L) s.mem q.mem) : Sound L { s with toPages := q } us hs := by
  have hbu : h.addr ∈ u.blocks L := hb ▸ List.mem_cons_self
  have hne : ∀ v ∈ us, ∀ b ∈ v.blocks L, b ≠ h.addr := by
    rintro v hv b hbv rfl
    obtain rfl := hl.chunk_of_block List.mem_cons_self (List.mem_cons_of_mem u hv) hbu hbv
    exact (List.nodup_cons.mp hl.nodup_chunks).1 hv
  refine dropped hl.drop (fun v hv b hbv => ?_) (fun v hv => ?_) hp hmem (fun k hk hin => ?_)
    (fun e c => ?_) hl.nodup
  · exact (hl.covered v (List.mem_cons_of_mem u hv) b hbv).imp_right fun hin =>
      (List.mem_cons.mp hin).resolve_left (hne v hv b hbv)
  · obtain ⟨b, hbv, hin⟩ := hl.busy v (List.mem_cons_of_mem u hv)
    exact ⟨b, hbv, (List.mem_cons.mp hin).resolve_left (hne v hv b hbv)⟩
  · rw [hb, List.mem_singleton] at hin
    exact (List.nodup_cons.mp hl.distinct).1 (hin ▸ List.mem_map_of_mem hk)
  · refine (and_iff_left_of_imp fun hc hcu => ?_).symm
    obtain ⟨v, hv, hdv, hcv⟩ := hl.free e c hc
    obtain rfl := hl.chunk_of_block List.mem_cons_self hv hcu hcv
    exact huse e hdv

lemma freeBlock (hl : Sound L s us (h :: hs)) (hpages : h.pages = false) :
    ∃ s' us', s.free h.addr = some s' ∧ Sound L s' us' hs := by
  obtain ⟨u, hu, hb, hnot, -, -, hiff, -⟩ := hl.held h List.mem_cons_self
  have hclient : u.use ≠ .client := fun hc => by simp [hiff.mpr hc] at hpages
  cases hd : u.use with
  | small d => exact hl.freeSmall hu hd hb hnot
  | client => exact absurd hd hclient
  | big =>
    have hfits := hl.fits u hu
    have hperm := List.perm_cons_erase hu
    have hheader := hl.header u hu
    simp only [Chunk.HeaderIn, hd] at hheader
    have harena := Chunk.blockToArena_block hfits hb hclient (hl.header u hu)
    have hsound := hl.perm hperm (List.Perm.refl _)
    obtain ⟨q, hq, hplaced, hchanged⟩ := hsound.toPlaced.pallocFree
    have hblocks : u.blocks L = [u.addr L + arenaSize] := by simp [Chunk.blocks, hd]
    have haddr : h.addr = u.addr L + arenaSize := by simpa [hblocks] using hb
    refine ⟨{ s with toPages := q }, us.erase u, ?_,
      hsound.dropHeld (by simp [hd]) (haddr ▸ hblocks) hplaced hchanged⟩
    rw [Heap.free, if_neg (by simp [haddr, arenaSize])]
    simp only [harena, Option.bind_eq_bind, Option.bind_some, hheader.2.1, hheader.2.2, ne_eq, not_true_eq_false,
      if_false, hq]

lemma touch (hl : Sound L s us (h :: hs)) {m : Memory} (hmem : ChangedIn h.extent s.mem m) :
    Sound L { s with mem := m } us ({ h with data := m.bytes h.addr h.data.length } :: hs) :=
  ⟨hl.toLaid.touch hmem, hl.covered, hl.busy⟩

lemma blockSize (hl : Sound L s us hs) (hh : h ∈ hs) (hpages : h.pages = false) :
    ∃ k, s.blockSize h.addr = some k ∧ h.data.length ≤ k := by
  obtain ⟨u, hu, hb, -, -, hlen, hiff, -⟩ := hl.held h hh
  have hclient : u.use ≠ .client := fun hc => by simp [hiff.mpr hc] at hpages
  have harena := Chunk.blockToArena_block (hl.fits u hu) hb hclient (hl.header u hu)
  have hheader := hl.header u hu
  cases hd : u.use with
  | small d =>
    simp only [Chunk.HeaderIn, hd] at hheader
    simp only [Chunk.roomSize, hd] at hlen
    refine ⟨(desc d).blockSize, ?_, hlen⟩
    simp only [Heap.blockSize, harena, Option.bind_eq_bind, Option.bind_some, hheader.2.1]
    exact congrArg some (if_pos (Nat.succ_ne_zero d))
  | big =>
    simp only [Chunk.HeaderIn, hd] at hheader
    simp only [Chunk.roomSize, hd] at hlen
    have hofs : pgOfs h.addr = arenaSize := by
      have ha := L.pgOfs_page u.pool u.extent.start
      change pgOfs (u.addr L) = 0 at ha
      simp only [Chunk.blocks, hd, List.mem_singleton] at hb
      rw [hb]
      simp only [pgOfs, pgSize, arenaSize] at *
      omega
    refine ⟨pgSize * u.extent.cnt - arenaSize, ?_, hlen⟩
    simp only [Heap.blockSize, harena, Option.bind_eq_bind, Option.bind_some, hheader.2.1, hheader.2.2, hofs,
      ne_eq, not_true_eq_false, if_false]
  | client => exact absurd hd hclient

lemma realloc (hl : Sound L s us (h :: hs)) (hpages : h.pages = false) (hpos : 0 < n)
    (hn : n + arenaSize ≤ wordSize) :
    (s.realloc h.addr n = some (0, s) ∧ NoGroup L s.toPages .kernel (pagesFor n)) ∨
    ∃ p s' us', s.realloc h.addr n = some (p, s') ∧ p ≠ 0 ∧ Sound L s' us' (⟨p, s'.mem.bytes p n, false⟩ :: hs) ∧
      s'.mem.bytes p (min n h.data.length) = h.data.take n := by
  have hdata := hl.data h List.mem_cons_self
  have haddr : h.addr ≠ 0 := by
    obtain ⟨u, hu, hb, -⟩ := hl.held h List.mem_cons_self
    have hin := Chunk.room_inside (hl.fits u hu) hb
    have hpage := L.page_pos u.pool u.extent.start
    change 0 < u.addr L at hpage
    omega
  refine (hl.malloc hpos hn).imp ?_ ?_
  · rintro ⟨hmalloc, hnone⟩
    refine ⟨?_, hnone⟩
    rw [Heap.realloc, if_neg hpos.ne']
    simp only [hmalloc, Option.bind_eq_bind, Option.bind_some, ne_eq, not_true_eq_false, and_false, if_false]
  · rintro ⟨p, t, us₁, hmalloc, hp, hsound⟩
    have hold := hsound.data h (List.mem_cons_of_mem _ List.mem_cons_self)
    obtain ⟨k, hk, hle⟩ := hsound.blockSize (List.mem_cons_of_mem _ List.mem_cons_self) hpages
    have hchanged : ChangedIn ⟨p, n⟩ t.mem (t.mem.copy p h.addr (min n k)) :=
      changedIn_copy _ le_rfl (Nat.add_le_add_left (Nat.min_le_left n k) p)
    have htouched := hsound.touch (m := t.mem.copy p h.addr (min n k)) (by
      simpa only [Holding.extent, Memory.length_bytes] using hchanged)
    simp only [Memory.length_bytes] at htouched
    obtain ⟨s', us', hfree, hsound'⟩ := (htouched.perm (List.Perm.refl _) (List.Perm.swap h _ hs)).freeBlock hpages
    have hkept := hsound'.data _ List.mem_cons_self
    simp only [Memory.length_bytes] at hkept
    refine ⟨p, s', us', ?_, hp, hkept.symm ▸ hsound', ?_⟩
    · rw [Heap.realloc, if_neg hpos.ne']
      simp only [hmalloc, Option.bind_eq_bind, Option.bind_some, hk]
      rw [if_pos ⟨haddr, hp⟩]
      change (Heap.free { t with mem := t.mem.copy p h.addr (min n k) } h.addr).bind _ = _
      rw [hfree]
      rfl
    · rw [← Memory.take_bytes (Nat.min_le_left n h.data.length), hkept,
        Memory.take_bytes (Nat.min_le_left n h.data.length)]
      calc (t.mem.copy p h.addr (min n k)).bytes p (min n h.data.length)
          = t.mem.bytes h.addr (min n h.data.length) := Memory.bytes_congr fun i hi => by
            rw [Memory.copy, if_pos (by omega), Nat.add_sub_cancel_left]
        _ = (t.mem.bytes h.addr h.data.length).take (min n h.data.length) :=
        (Memory.take_bytes (Nat.min_le_right ..)).symm
        _ = h.data.take n := by rw [hold, ← List.take_eq_take_min]

lemma pallocFree (hl : Sound L s us (h :: hs)) (hpages : h.pages = true) :
    ∃ q us', s.toPages.pallocFreeMultiple h.addr (h.data.length / pgSize) = some q ∧
      Sound L { s with toPages := q } us' hs := by
  obtain ⟨u, hu, hb, -, -, -, hiff, hall⟩ := hl.held h List.mem_cons_self
  have hd := hiff.mp hpages
  have hperm := List.perm_cons_erase hu
  have hsound := hl.perm hperm (List.Perm.refl _)
  obtain ⟨q, hq, hplaced, hchanged⟩ := hsound.toPlaced.pallocFree
  have hblocks : u.blocks L = [u.addr L] := by simp [Chunk.blocks, hd]
  have haddr : h.addr = u.addr L := by simpa [hblocks] using hb
  have hlen : h.data.length / pgSize = u.extent.cnt := by
    rw [hall hd, Chunk.roomSize, hd]
    exact Nat.mul_div_cancel_left _ (by decide)
  exact ⟨q, us.erase u, by rw [hlen, haddr, hq], hsound.dropHeld (by simp [hd]) (haddr ▸ hblocks) hplaced hchanged⟩

end Sound

end CourseArchive.PintOS.Threads
