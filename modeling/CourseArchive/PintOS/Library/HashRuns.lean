import CourseArchive.PintOS.Library.Hash

/-! A hash table is a finite map: over every run, with rehashing as memory allows, it answers as a list with at
most one element of each class would. -/

namespace CourseArchive.PintOS.Library

open Lib

lemma isPowerOf2_iff (x : ℕ) : isPowerOf2 x = true ↔ ∃ k, x = 2 ^ k := by
  rw [isPowerOf2, Bool.and_eq_true, decide_eq_true_eq, decide_eq_true_eq]
  exact Nat.ne_zero_and_sub_one_eq_zero_iff_isPowerOfTwo

lemma toPowerOf2_isPowerOf2 {x : ℕ} (hx : x ≠ 0) : ∃ k, toPowerOf2 x = 2 ^ k ∧ 2 ^ k ≤ x := by
  induction x using Nat.strong_induction_on with
  | _ x ih =>
    rw [toPowerOf2]
    split
    · next hdone =>
      obtain ⟨k, rfl⟩ := (isPowerOf2_iff x).mp (hdone.resolve_left hx)
      exact ⟨k, rfl, le_rfl⟩
    · next hmore =>
      push Not at hmore
      have hne : turnOffLeast1bit x ≠ 0 := fun h0 => hmore.2 (by simp [isPowerOf2, hx, h0])
      obtain ⟨k, hk, hle⟩ := ih _ (turnOffLeast1bit_lt hx) hne
      exact ⟨k, hk, hle.trans (turnOffLeast1bit_lt hx).le⟩

lemma idealBucketCnt_eq (n : ℕ) : ∃ k, idealBucketCnt n = 2 ^ k := by
  have hne : (if n / bestElemsPerBucket < 4 then 4 else n / bestElemsPerBucket) ≠ 0 := by
    split <;> omega
  obtain ⟨k, hk, -⟩ := toPowerOf2_isPowerOf2 hne
  exact ⟨k, hk⟩

namespace HashTable

variable {α : Type} {hash : α → ℕ} {less : α → α → Bool} {t : HashTable α} {xs : List α} {a e : α} {i : ℕ}

structure WellFormed (hash : α → ℕ) (less : α → α → Bool) (t : HashTable α) : Prop where
  power : ∃ k, t.bucketCnt = 2 ^ k
  placed : ∀ i, ∀ e ∈ t.buckets i, t.findBucket hash e = i
  count : t.elemCnt = (spread t.bucketCnt t.buckets).length
  distinct : Distinct less (spread t.bucketCnt t.buckets)

structure Stands (hash : α → ℕ) (less : α → α → Bool) (t : HashTable α) (xs : List α) : Prop where
  wellFormed : t.WellFormed hash less
  elements : (spread t.bucketCnt t.buckets).Perm xs

namespace WellFormed

lemma findBucket_lt (hw : t.WellFormed hash less) (e : α) : t.findBucket hash e < t.bucketCnt := by
  obtain ⟨k, hk⟩ := hw.power
  rw [findBucket, hk, Nat.and_two_pow_sub_one_eq_mod]
  exact Nat.mod_lt _ (Nat.two_pow_pos k)

lemma mem_iff (hw : t.WellFormed hash less) :
    a ∈ spread t.bucketCnt t.buckets ↔ a ∈ t.buckets (t.findBucket hash a) := by
  rw [spread, List.mem_flatMap]
  constructor
  · rintro ⟨i, -, ha⟩
    rwa [hw.placed i a ha]
  · exact fun ha => ⟨_, List.mem_range.mpr (hw.findBucket_lt a), ha⟩

end WellFormed

variable (horder : StrictWeakOrder less) (hcompat : ∀ a b, equivalent less a b = true → hash a = hash b)

section

include horder hcompat

lemma Stands.findElem_eq (hs : t.Stands hash less xs) (e : α) :
    findElem less (t.buckets (t.findBucket hash e)) e = lookup less e xs := by
  -- only the bucket of `e` can hold an element equal to `e`
  have hw := hs.wellFormed
  have hsame : ∀ a, equivalent less e a = true → t.findBucket hash a = t.findBucket hash e := fun a ha => by
    rw [findBucket, findBucket, hcompat e a ha]
  have hfind :
    findElem less (t.buckets (t.findBucket hash e)) e = lookup less e (t.buckets (t.findBucket hash e)) := by
    simp only [findElem, lookup]
    congr 1
    funext a
    exact Bool.and_comm _ _
  have hdist : Distinct less (t.buckets (t.findBucket hash e)) :=
    hw.distinct.sublist
    (List.sublist_flatten_of_mem (List.mem_map_of_mem (List.mem_range.mpr (hw.findBucket_lt e))))
  rw [hfind, ← lookup_perm horder hs.elements hw.distinct]
  refine Option.ext fun a => ?_
  rw [lookup_eq_some_iff horder hdist, lookup_eq_some_iff horder hw.distinct, hw.mem_iff]
  refine and_congr_left fun ha => ?_
  rw [hsame a ha]

end

lemma findBucket_insertElem (t : HashTable α) (i : ℕ) (a e : α) :
    (t.insertElem i a).findBucket hash e = t.findBucket hash e := rfl

lemma insertElem_stands (hs : t.Stands hash less xs) (hnew : ∀ a ∈ xs, ¬equivalent less e a = true) :
    (t.insertElem (t.findBucket hash e) e).Stands hash less (e :: xs) := by
  have hw := hs.wellFormed
  have hperm := spread_push (hw.findBucket_lt e) t.buckets e
  have hall := hperm.trans (hs.elements.cons e)
  have hxs : Distinct less xs := hw.distinct.perm hs.elements
  refine ⟨⟨hw.power, fun i a ha => ?_, ?_, ?_⟩, hall⟩
  · rw [findBucket_insertElem]
    simp only [insertElem] at ha
    by_cases hi : i = t.findBucket hash e
    · subst hi
      rw [Function.update_self] at ha
      rcases List.mem_cons.mp ha with rfl | ha
      · rfl
      · exact hw.placed _ a ha
    · rw [Function.update_of_ne hi] at ha
      exact hw.placed i a ha
  · have hcnt : t.elemCnt + 1 = (e :: xs).length := by rw [List.length_cons, ← hs.elements.length_eq, ← hw.count]
    exact hcnt.trans hall.length_eq.symm
  · exact Distinct.perm hall.symm (List.pairwise_cons.mpr ⟨hnew, hxs⟩)

lemma removeElem_stands [DecidableEq α] (horder : StrictWeakOrder less) (hs : t.Stands hash less xs)
    (hfound : lookup less e xs = some a) (hplace : t.findBucket hash a = i) :
    (t.removeElem i a).Stands hash less (dropClass less e xs) := by
  have hw := hs.wellFormed
  have hxs : Distinct less xs := hw.distinct.perm hs.elements
  have ha : a ∈ t.buckets i := by
    rw [← hplace]
    exact hw.mem_iff.mp (hs.elements.mem_iff.mpr (List.mem_of_find?_eq_some hfound))
  have hi : i < t.bucketCnt := hplace ▸ hw.findBucket_lt a
  have hall : (spread t.bucketCnt (Function.update t.buckets i ((t.buckets i).erase a))).Perm
    (dropClass less e xs) := by
    have hup := spread_update hi t.buckets ((t.buckets i).erase a)
    have hold :=
      (List.perm_cons_erase ha).append_right
      (spread t.bucketCnt (Function.update t.buckets i ((t.buckets i).erase a)))
    have hnew := hs.elements.trans (perm_cons_dropClass horder hxs hfound)
    have hboth := (hold.symm.trans hup).trans (hnew.append_left _)
    have hmid := hboth.trans List.perm_middle
    rw [List.cons_append] at hmid
    exact (List.perm_append_left_iff _).mp ((List.perm_cons a).mp hmid)
  refine ⟨⟨hw.power, fun j b hb => ?_, ?_, ?_⟩, hall⟩
  · change t.findBucket hash b = j
    simp only [removeElem] at hb
    by_cases hj : j = i
    · subst hj
      rw [Function.update_self] at hb
      exact hw.placed _ b (List.mem_of_mem_erase hb)
    · rw [Function.update_of_ne hj] at hb
      exact hw.placed j b hb
  · have hlen := (perm_cons_dropClass horder hxs hfound).length_eq
    rw [List.length_cons] at hlen
    have hcnt : t.elemCnt - 1 = (dropClass less e xs).length := by
      rw [hw.count, hs.elements.length_eq, hlen, Nat.add_sub_cancel]
    exact hcnt.trans hall.length_eq.symm
  · exact Distinct.perm hall.symm hxs.dropClass

lemma rehash_stands (hs : t.Stands hash less xs) (allocated : Bool) :
    (t.rehash hash allocated).Stands hash less xs := by
  have hw := hs.wellFormed
  rw [rehash]
  split
  · exact hs
  split
  · exact hs
  · obtain ⟨k, hk⟩ := idealBucketCnt_eq t.elemCnt
    set h : HashTable α := { t with bucketCnt := idealBucketCnt t.elemCnt, buckets := fun _ => [] } with hh
    have hplace : ∀ e, h.findBucket hash e < h.bucketCnt := fun e => by
      rw [findBucket, hh, hk, Nat.and_two_pow_sub_one_eq_mod]
      exact Nat.mod_lt _ (Nat.two_pow_pos k)
    have hmoved :
      (List.range t.bucketCnt).foldl (fun bs i => (t.buckets i).foldl (push (h.findBucket hash)) bs) h.buckets =
        (spread t.bucketCnt t.buckets).foldl (push (h.findBucket hash)) fun _ => [] := List.foldl_flatMap.symm
    have hperm := spread_foldl_push (fun e (_ : e ∈ spread t.bucketCnt t.buckets) => hplace e) fun _ => []
    have hnil : spread h.bucketCnt (fun _ => ([] : List α)) = [] := by simp [spread]
    rw [hnil, List.append_nil] at hperm
    simp only [hmoved]
    refine ⟨⟨⟨k, hk⟩, ?_, ?_, ?_⟩, hperm.trans hs.elements⟩
    · exact mem_foldl_push (by simp)
    · exact hw.count.trans hperm.length_eq.symm
    · exact Distinct.perm hperm.symm hw.distinct

/-! Iteration. -/

def remaining (t : HashTable α) (i : HashIterator α) : List α :=
  i.rest ++ ((List.range t.bucketCnt).drop (i.bucket + 1)).flatMap t.buckets

lemma drop_range_cons {n k : ℕ} (hk : k < n) : (List.range n).drop k = k :: (List.range n).drop (k + 1) := by
  rw [List.drop_eq_getElem_cons (by simpa using hk), List.getElem_range]

lemma nextBucket_spec (t : HashTable α) (b : ℕ) :
    (t.nextBucket b).1 = (t.remaining { bucket := b, rest := [] }).head? ∧
      t.remaining (t.nextBucket b).2 = (t.remaining { bucket := b, rest := [] }).tail := by
  induction hn : t.bucketCnt - b using Nat.strong_induction_on generalizing b with
  | _ n ih =>
    rw [nextBucket]
    by_cases hend : t.bucketCnt ≤ b + 1
    · have hdrop : (List.range t.bucketCnt).drop (b + 1) = [] := List.drop_eq_nil_of_le (by simpa using hend)
      have hdrop' : (List.range t.bucketCnt).drop (b + 2) = [] := List.drop_eq_nil_of_le (by simp; omega)
      rw [dif_pos hend]
      simp [remaining, hdrop, hdrop']
    · have hsplit : t.remaining { bucket := b, rest := [] } =
          t.buckets (b + 1) ++ ((List.range t.bucketCnt).drop (b + 2)).flatMap t.buckets := by
        simp only [remaining, List.nil_append]
        rw [drop_range_cons (by omega), List.flatMap_cons]
      rw [dif_neg hend, hsplit]
      cases hb : t.buckets (b + 1) with
      | nil => exact ih _ (by omega) (b + 1) rfl
      | cons e rest => exact ⟨rfl, rfl⟩

lemma hashNext_spec (t : HashTable α) (i : HashIterator α) :
    (t.hashNext i).1 = (t.remaining i).head? ∧ t.remaining (t.hashNext i).2 = (t.remaining i).tail := by
  rw [hashNext]
  cases hrest : i.rest with
  | cons e rest => simp [remaining, hrest]
  | nil =>
    have hspec := nextBucket_spec t i.bucket
    have hrem : t.remaining i = t.remaining { bucket := i.bucket, rest := [] } := by simp [remaining, hrest]
    rwa [hrem]

lemma visit_eq (t : HashTable α) (calls : ℕ) (i : HashIterator α) (hc : (t.remaining i).length < calls) :
    t.visit calls i = t.remaining i := by
  induction calls generalizing i with
  | zero => omega
  | succ calls ih =>
    obtain ⟨hhead, htail⟩ := t.hashNext_spec i
    rw [visit]
    generalize t.hashNext i = r at *
    obtain ⟨o, j⟩ := r
    simp only at hhead htail
    cases hrem : t.remaining i with
    | nil =>
      rw [hrem] at hhead
      subst hhead
      rfl
    | cons e rest =>
      rw [hrem] at hhead htail hc
      subst hhead
      rw [List.tail_cons] at htail
      change e :: t.visit calls j = _
      rw [ih j (by simpa [htail] using hc), htail]

lemma remaining_hashFirst (t : HashTable α) (ht : 0 < t.bucketCnt) :
    t.remaining t.hashFirst = spread t.bucketCnt t.buckets := by
  have hrange : List.range t.bucketCnt = 0 :: (List.range t.bucketCnt).drop 1 := by
    have hdrop := drop_range_cons ht
    rwa [List.drop_zero] at hdrop
  rw [spread, hrange, List.flatMap_cons]
  rfl

end HashTable

/-! Runs. -/

section Runs

variable {α : Type}

inductive HashOp (α : Type)
  | insert (new : α) (allocated : Bool)
  | replace (new : α) (allocated : Bool)
  | find (e : α)
  | delete (e : α) (allocated : Bool)
  | clear
  | apply
  | iterate
  | size
  | empty

inductive HashResult (α : Type)
  | elem (e : Option α)
  | elems (es : Multiset α)
  | count (n : ℕ)
  | flag (b : Bool)

def HashOp.run [DecidableEq α] (hash : α → ℕ) (less : α → α → Bool) (t : HashTable α) :
    HashOp α → HashResult α × HashTable α
  | insert new allocated => (t.hashInsert hash less allocated new).map .elem id
  | replace new allocated => (t.hashReplace hash less allocated new).map .elem id
  | find e => (.elem (t.hashFind hash less e), t)
  | delete e allocated => (t.hashDelete hash less allocated e).map .elem id
  | clear => (.elems t.hashClear.1, t.hashClear.2)
  | apply => (.elems t.hashApply, t)
  | iterate => (.elems (t.visit (t.hashSize + 1) t.hashFirst), t)
  | size => (.count t.hashSize, t)
  | empty => (.flag t.hashEmpty, t)

def HashOp.model (less : α → α → Bool) (xs : List α) : HashOp α → HashResult α × List α
  | insert new _ => (.elem (lookup less new xs), if (lookup less new xs).isSome then xs else new :: xs)
  | replace new _ => (.elem (lookup less new xs), new :: dropClass less new xs)
  | find e => (.elem (lookup less e xs), xs)
  | delete e _ => (.elem (lookup less e xs), dropClass less e xs)
  | clear => (.elems xs, [])
  | apply => (.elems xs, xs)
  | iterate => (.elems xs, xs)
  | size => (.count xs.length, xs)
  | empty => (.flag xs.isEmpty, xs)

def runHash [DecidableEq α] (hash : α → ℕ) (less : α → α → Bool) :
    HashTable α → List (HashOp α) → List (HashResult α)
  | _, [] => []
  | t, op :: ops => (op.run hash less t).1 :: runHash hash less (op.run hash less t).2 ops

def modelHash (less : α → α → Bool) : List α → List (HashOp α) → List (HashResult α)
  | _, [] => []
  | xs, op :: ops => (op.model less xs).1 :: modelHash less (op.model less xs).2 ops

variable {hash : α → ℕ} {less : α → α → Bool} {t : HashTable α} {xs : List α}

lemma HashTable.init_stands :
    ({ elemCnt := 0, bucketCnt := 4, buckets := fun _ => [] } : HashTable α).Stands hash less [] :=
  ⟨⟨⟨2, rfl⟩, by simp, rfl, List.Pairwise.nil⟩, List.Perm.refl _⟩

lemma HashTable.Stands.size (hs : t.Stands hash less xs) : t.elemCnt = xs.length :=
  hs.wellFormed.count.trans hs.elements.length_eq

lemma HashTable.clear_stands (hs : t.Stands hash less xs) : t.hashClear.2.Stands hash less [] := by
  obtain ⟨hpower, hplaced, -, -⟩ := hs.wellFormed
  have hnil : spread t.bucketCnt (fun i => if i < t.bucketCnt then [] else t.buckets i) = [] := by
    refine List.flatMap_eq_nil_iff.mpr fun i hi => ?_
    rw [if_pos (List.mem_range.mp hi)]
  refine ⟨⟨hpower, fun i e he => ?_, ?_, ?_⟩, ?_⟩
  · simp only [hashClear] at he
    split at he
    · cases he
    · exact hplaced i e he
  · exact (congrArg List.length hnil).symm
  · exact hnil ▸ List.Pairwise.nil
  · exact hnil ▸ List.Perm.refl _

variable [DecidableEq α]

lemma HashOp.run_spec (horder : StrictWeakOrder less)
    (hcompat : ∀ a b, equivalent less a b = true → hash a = hash b) (op : HashOp α) (hs : t.Stands hash less xs) :
    (op.run hash less t).1 = (op.model less xs).1 ∧ (op.run hash less t).2.Stands hash less
    (op.model less xs).2 := by
  have hxs : Distinct less xs := hs.wellFormed.distinct.perm hs.elements
  have hfind := fun e => hs.findElem_eq horder hcompat e
  have hplace : ∀ e a, lookup less e xs = some a → t.findBucket hash a = t.findBucket hash e := fun e a ha => by
    rw [HashTable.findBucket, HashTable.findBucket, hcompat e a (List.find?_some ha)]
  have helems : (↑(spread t.bucketCnt t.buckets) : Multiset α) = ↑xs := Multiset.coe_eq_coe.mpr hs.elements
  cases op with
  | insert new allocated =>
    refine ⟨congrArg HashResult.elem (hfind new), HashTable.rehash_stands ?_ allocated⟩
    rw [hfind new]
    cases hold : lookup less new xs with
    | none =>
      simp only [HashOp.model, hold, Option.isNone_none, Option.isSome_none, Bool.false_eq_true, if_true, if_false]
      exact HashTable.insertElem_stands hs (lookup_eq_none_iff.mp hold)
    | some a =>
      simp only [HashOp.model, hold, Option.isNone_some, Option.isSome_some, Bool.false_eq_true, if_true, if_false]
      exact hs
  | replace new allocated =>
    refine ⟨congrArg HashResult.elem (hfind new), HashTable.rehash_stands ?_ allocated⟩
    rw [hfind new]
    have hout : ∀ a ∈ dropClass less new xs, ¬equivalent less new a = true := fun a ha => by
      simpa using (List.mem_filter.mp ha).2
    cases hold : lookup less new xs with
    | none =>
      simp only [HashOp.model]
      rw [dropClass_of_lookup_none hold] at hout ⊢
      exact HashTable.insertElem_stands hs hout
    | some a =>
      exact HashTable.insertElem_stands (HashTable.removeElem_stands horder hs hold (hplace new a hold)) hout
  | find e => exact ⟨congrArg HashResult.elem (hfind e), hs⟩
  | delete e allocated =>
    simp only [HashOp.run, HashOp.model, HashTable.hashDelete, hfind e]
    cases hold : lookup less e xs with
    | none => exact ⟨rfl, by rwa [dropClass_of_lookup_none hold]⟩
    | some a => exact ⟨rfl,
      HashTable.rehash_stands (HashTable.removeElem_stands horder hs hold (hplace e a hold)) allocated⟩
  | clear => exact ⟨congrArg HashResult.elems helems, HashTable.clear_stands hs⟩
  | apply => exact ⟨congrArg HashResult.elems helems, hs⟩
  | iterate =>
    obtain ⟨k, hk⟩ := hs.wellFormed.power
    have hrem := t.remaining_hashFirst (hk ▸ Nat.two_pow_pos k)
    have hvisit : t.visit (t.hashSize + 1) t.hashFirst = spread t.bucketCnt t.buckets := by
      rw [HashTable.visit_eq _ _ _ _, hrem]
      rw [hrem, HashTable.hashSize, hs.wellFormed.count]
      exact Nat.lt_succ_self _
    refine ⟨?_, hs⟩
    simp only [HashOp.run, HashOp.model, hvisit, helems]
  | size => exact ⟨congrArg HashResult.count hs.size, hs⟩
  | empty =>
    refine ⟨congrArg HashResult.flag ?_, hs⟩
    rw [HashTable.hashEmpty, hs.size]
    cases xs <;> rfl

/-- Over every run from `hash_init`, whichever allocations of `rehash` fail, a hash table is a finite map: every
function returns, and every walk over the table meets, what it would on a list with at most one element of each
class. -/
theorem runHash_eq_modelHash (horder : StrictWeakOrder less)
    (hcompat : ∀ a b, equivalent less a b = true → hash a = hash b)
    (t₀ : HashTable α) (hinit : HashTable.hashInit true = some t₀) (ops : List (HashOp α)) :
    runHash hash less t₀ ops = modelHash less [] ops := by
  have hrun : ∀ (t : HashTable α) (xs : List α), t.Stands hash less xs →
    runHash hash less t ops = modelHash less xs ops := by
    induction ops with
    | nil => exact fun _ _ _ => rfl
    | cons op ops ih =>
      intro t xs hs
      obtain ⟨hresult, hnext⟩ := op.run_spec horder hcompat hs
      rw [runHash, modelHash, hresult, ih _ _ hnext]
  refine hrun t₀ [] ?_
  obtain rfl := Option.some_injective _ hinit
  exact HashTable.init_stands

/-! The sixteenth element takes the table from four buckets to eight, and without it the table goes back to
four. -/

def sixteenOps : List (HashOp ℕ) :=
  ((List.range 16).map fun n => HashOp.insert n true) ++
    ([.find 303, .iterate, .replace 203 true, .insert 105 false, .delete 7 true, .iterate, .clear, .size] :
      List (HashOp ℕ))

def sixteenResults : List (HashResult ℕ) :=
  let left : Multiset ℕ := ↑[203, 15, 14, 13, 12, 11, 10, 9, 8, 6, 5, 4, 2, 1, 0]
  ((List.range 16).map fun _ => HashResult.elem none) ++
    ([.elem (some 3), .elems ↑(List.range 16).reverse, .elem (some 3), .elem (some 5), .elem (some 7), .elems left,
      .elems left, .count 0] : List (HashResult ℕ))

theorem runHash_eq_modelHash_last_two_digits :
    runHash (fun n : ℕ => n % 100) (fun a b => decide (a % 100 < b % 100))
    { elemCnt := 0, bucketCnt := 4, buckets := fun _ => [] } sixteenOps = sixteenResults := by
  have horder : StrictWeakOrder fun a b : ℕ => decide (a % 100 < b % 100) := by
    refine ⟨by simp, fun a b c hab hbc => ?_, fun a b c hac => ?_⟩
    · simp only [decide_eq_true_eq] at *
      omega
    · simp only [decide_eq_true_eq] at *
      omega
  have hcompat :
    ∀ a b : ℕ, equivalent (fun a b : ℕ => decide (a % 100 < b % 100)) a b = true → a % 100 = b % 100 := by
    intro a b hab
    simp only [equivalent, Bool.and_eq_true, Bool.not_eq_true', decide_eq_false_iff_not] at hab
    omega
  rw [runHash_eq_modelHash horder hcompat _ rfl]
  rfl

end Runs

end CourseArchive.PintOS.Library
