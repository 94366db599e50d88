import CourseArchive.Lib.Representatives

/-! Hash tables with chaining (`lib/kernel/hash.c`). The buckets are lists of elements; whether an allocation
succeeds is an argument of the functions that call `malloc`. -/

namespace CourseArchive.PintOS.Library

open Lib

structure HashTable (α : Type) where
  elemCnt : ℕ
  bucketCnt : ℕ
  buckets : ℕ → List α

def turnOffLeast1bit (x : ℕ) : ℕ := x &&& (x - 1)

def isPowerOf2 (x : ℕ) : Bool := x ≠ 0 && turnOffLeast1bit x = 0

def bestElemsPerBucket : ℕ := 2

lemma turnOffLeast1bit_lt {x : ℕ} (hx : x ≠ 0) : turnOffLeast1bit x < x := by
  have hle : turnOffLeast1bit x ≤ x - 1 := Nat.and_le_right
  omega

def toPowerOf2 (x : ℕ) : ℕ := if _h : x = 0 ∨ isPowerOf2 x then x else toPowerOf2 (turnOffLeast1bit x)
termination_by x
decreasing_by exact turnOffLeast1bit_lt fun h0 => _h (.inl h0)

def idealBucketCnt (elemCnt : ℕ) : ℕ :=
  let n := elemCnt / bestElemsPerBucket
  toPowerOf2 (if n < 4 then 4 else n)

structure HashIterator (α : Type) where
  bucket : ℕ
  rest : List α

namespace HashTable

variable {α : Type} [DecidableEq α] (hash : α → ℕ) (less : α → α → Bool)

def hashInit (allocated : Bool) : Option (HashTable α) :=
  if allocated then some { elemCnt := 0, bucketCnt := 4, buckets := fun _ => [] } else none

def hashClear (t : HashTable α) : List α × HashTable α :=
  ((List.range t.bucketCnt).flatMap t.buckets,
    { t with elemCnt := 0, buckets := fun i => if i < t.bucketCnt then [] else t.buckets i })

def findBucket (t : HashTable α) (e : α) : ℕ := hash e &&& (t.bucketCnt - 1)

def findElem (bucket : List α) (e : α) : Option α := bucket.find? fun hi => !less hi e && !less e hi

def insertElem (t : HashTable α) (bucket : ℕ) (e : α) : HashTable α :=
  { t with elemCnt := t.elemCnt + 1, buckets := Function.update t.buckets bucket (e :: t.buckets bucket) }

def removeElem (t : HashTable α) (bucket : ℕ) (e : α) : HashTable α :=
  { t with elemCnt := t.elemCnt - 1, buckets := Function.update t.buckets bucket ((t.buckets bucket).erase e) }

def rehash (allocated : Bool) (t : HashTable α) : HashTable α :=
  let newBucketCnt := idealBucketCnt t.elemCnt
  if newBucketCnt = t.bucketCnt then t
  else if !allocated then t
  else
    let h : HashTable α := { t with bucketCnt := newBucketCnt, buckets := fun _ => [] }
    let moved :=
      (List.range t.bucketCnt).foldl (fun bs i => (t.buckets i).foldl (push (h.findBucket hash)) bs) h.buckets
    { h with buckets := moved }

def hashInsert (allocated : Bool) (t : HashTable α) (new : α) : Option α × HashTable α :=
  let bucket := t.findBucket hash new
  let old := findElem less (t.buckets bucket) new
  let t := if old.isNone then t.insertElem bucket new else t
  (old, t.rehash hash allocated)

def hashReplace (allocated : Bool) (t : HashTable α) (new : α) : Option α × HashTable α :=
  let bucket := t.findBucket hash new
  let old := findElem less (t.buckets bucket) new
  let t := match old with
    | some e => t.removeElem bucket e
    | none => t
  (old, (t.insertElem bucket new).rehash hash allocated)

def hashFind (t : HashTable α) (e : α) : Option α := findElem less (t.buckets (t.findBucket hash e)) e

def hashDelete (allocated : Bool) (t : HashTable α) (e : α) : Option α × HashTable α :=
  let bucket := t.findBucket hash e
  match findElem less (t.buckets bucket) e with
  | some found => (some found, (t.removeElem bucket found).rehash hash allocated)
  | none => (none, t)

def hashApply (t : HashTable α) : List α := (List.range t.bucketCnt).flatMap t.buckets

def hashFirst (t : HashTable α) : HashIterator α := { bucket := 0, rest := t.buckets 0 }

def nextBucket (t : HashTable α) (bucket : ℕ) : Option α × HashIterator α :=
  if _h : t.bucketCnt ≤ bucket + 1 then (none, { bucket := bucket + 1, rest := [] })
  else match t.buckets (bucket + 1) with
    | e :: rest => (some e, { bucket := bucket + 1, rest := rest })
    | [] => nextBucket t (bucket + 1)
termination_by t.bucketCnt - bucket
decreasing_by omega

def hashNext (t : HashTable α) (i : HashIterator α) : Option α × HashIterator α :=
  match i.rest with
  | e :: rest => (some e, { i with rest := rest })
  | [] => t.nextBucket i.bucket

def visit (t : HashTable α) : ℕ → HashIterator α → List α
  | 0, _ => []
  | calls + 1, i => match t.hashNext i with
    | (some e, i) => e :: visit t calls i
    | (none, _) => []

def hashSize (t : HashTable α) : ℕ := t.elemCnt

def hashEmpty (t : HashTable α) : Bool := t.elemCnt = 0

end HashTable

end CourseArchive.PintOS.Library
