import Mathlib.Data.List.TakeWhile
import Mathlib.Tactic

/-! The functions of `lib/string.c` that split a command: a string is the array of its bytes, and a read past the
end of the array fails. -/

namespace CourseArchive.PintOS

/-- `strchr (delimiters, c) != NULL`, which a NUL satisfies too. -/
def strchr (delimiters : List UInt8) (c : UInt8) : Bool := c = 0 || delimiters.contains c

def strlen : List UInt8 → Option ℕ
  | [] => none
  | c :: rest => if c = 0 then some 0 else (strlen rest).map (· + 1)

def skipDelimiters (delimiters : List UInt8) : List UInt8 → Option ℕ
  | [] => none
  | c :: rest => if strchr delimiters c && c ≠ 0 then (skipDelimiters delimiters rest).map (· + 1) else some 0

def tokenLength (delimiters : List UInt8) : List UInt8 → Option ℕ
  | [] => none
  | c :: rest => if strchr delimiters c then some 0 else (tokenLength delimiters rest).map (· + 1)

structure Token where
  token : Option ℕ
  buf : List UInt8
  savePtr : ℕ
  deriving DecidableEq

/-- `s` is where the search starts: the argument of the first call, and `*save_ptr` of the later ones. -/
def strtokR (delimiters : List UInt8) (buf : List UInt8) (s : ℕ) : Option Token := do
  let k ← skipDelimiters delimiters (buf.drop s)
  let s := s + k
  if buf[s]? = some 0 then return ⟨none, buf, s⟩
  let l ← tokenLength delimiters (buf.drop s)
  let e := s + l
  if buf[e]? = some 0 then return ⟨some s, buf, e⟩
  return ⟨some s, buf.set e 0, e + 1⟩

def pieces (delimiter : UInt8) (s : List UInt8) : List (List UInt8) := (s.splitOn delimiter).filter (· ≠ [])

variable {d : UInt8} {w r : List UInt8}

@[simp] lemma pieces_nil : pieces d [] = [] := by simp [pieces]

@[simp] lemma pieces_cons_self : pieces d (d :: r) = pieces d r := by
  have h := List.splitOn_append_cons_self_of_not_mem (a := d) (List.not_mem_nil) r
  rw [List.nil_append] at h
  simp [pieces, h]

lemma pieces_word (hw : w ≠ []) (h : d ∉ w) : pieces d w = [w] := by
  simp [pieces, List.splitOn_eq_singleton h, hw]

lemma pieces_word_append (hw : w ≠ []) (h : d ∉ w) : pieces d (w ++ d :: r) = w :: pieces d r := by
  simp [pieces, List.splitOn_append_cons_self_of_not_mem h, hw]

lemma strlen_append (h : 0 ∉ w) : strlen (w ++ 0 :: r) = some w.length := by
  induction w with
  | nil => simp [strlen]
  | cons c w ih =>
    rw [List.mem_cons, not_or] at h
    simp [strlen, ih h.2, Ne.symm h.1]

lemma skipDelimiters_replicate (k : ℕ) (h : ∀ c ∈ r.head?, c ≠ d ∨ c = 0) (hr : r ≠ []) (hd : d ≠ 0) :
    skipDelimiters [d] (List.replicate k d ++ r) = some k := by
  induction k with
  | zero =>
    cases r with
    | nil => exact absurd rfl hr
    | cons c r =>
      have := h c rfl
      simp [skipDelimiters, strchr]
      tauto
  | succ k ih => simp [List.replicate_succ, skipDelimiters, strchr, ih, hd]

lemma tokenLength_append {c : UInt8} (h : d ∉ w) (h0 : 0 ∉ w) (hc : c = 0 ∨ c = d) :
    tokenLength [d] (w ++ c :: r) = some w.length := by
  induction w with
  | nil => simp [tokenLength, strchr, hc]
  | cons b w ih =>
    rw [List.mem_cons, not_or] at h h0
    simp [tokenLength, strchr, ih h.2 h0.2, Ne.symm h.1, Ne.symm h0.1]

lemma dropWhile_cases (p : UInt8 → Bool) (s : List UInt8) :
    s.dropWhile p = [] ∨ ∃ c r, s.dropWhile p = c :: r ∧ p c = false := by
  cases h : s.dropWhile p with
  | nil => exact .inl rfl
  | cons c r =>
    have hhead := List.head_dropWhile_not p (l := s) (by simp [h])
    simp only [h, List.head_cons] at hhead
    exact .inr ⟨c, r, rfl, hhead⟩

lemma split_pieces (d : UInt8) (s : List UInt8) :
    (∃ k, s = List.replicate k d) ∨ ∃ k w, w ≠ [] ∧ d ∉ w ∧
      (s = List.replicate k d ++ w ∨ ∃ r, s = List.replicate k d ++ (w ++ d :: r)) := by
  -- a string is a run of delimiters, its first piece, and the rest behind a delimiter
  have hspaces : s.takeWhile (· == d) = List.replicate (s.takeWhile (· == d)).length d :=
    List.eq_replicate_iff.mpr ⟨rfl, fun c hc => by simpa using List.mem_takeWhile_imp hc⟩
  have hs := List.takeWhile_append_dropWhile (p := (· == d)) (l := s)
  rcases dropWhile_cases (· == d) s with hnil | ⟨c, r, hc, hne⟩
  · rw [hnil, List.append_nil, hspaces] at hs
    exact .inl ⟨_, hs.symm⟩
  · have ht := List.takeWhile_append_dropWhile (p := (· != d)) (l := c :: r)
    have hne' : (c != d) = true := by simpa using hne
    refine .inr ⟨(s.takeWhile (· == d)).length, (c :: r).takeWhile (· != d), by simp [hne'], fun hd => ?_, ?_⟩
    · simpa using List.mem_takeWhile_imp hd
    · rw [hspaces, hc, ← ht] at hs
      rcases dropWhile_cases (· != d) (c :: r) with hnil | ⟨c', r', hc', hd'⟩
      · rw [hnil, List.append_nil] at hs
        exact .inl hs.symm
      · obtain rfl : c' = d := by simpa using hd'
        rw [hc'] at hs
        exact .inr ⟨r', hs.symm⟩

lemma pieces_replicate_append (k : ℕ) : pieces d (List.replicate k d ++ r) = pieces d r := by
  induction k with
  | zero => rfl
  | succ k ih => rw [List.replicate_succ, List.cons_append, pieces_cons_self, ih]

lemma drop_of_append {buf x y : List UInt8} {s : ℕ} (h : buf.drop s = x ++ y) : buf.drop (s + x.length) = y := by
  rw [← List.drop_drop, h, List.drop_left']
  rfl

lemma getElem?_of_drop {buf : List UInt8} {s : ℕ} {c : UInt8} (h : buf.drop s = c :: r) : buf[s]? = some c := by
  rw [← Nat.add_zero s, ← List.getElem?_drop, h]
  rfl

structure Yields (t : Token) (w rest : List UInt8) : Prop where
  token : ∃ i junk, t.token = some i ∧ t.buf.drop i = w ++ 0 :: junk
  rest : t.buf.drop t.savePtr = rest ++ [0]

lemma strtokR_done {buf : List UInt8} {s k : ℕ} (hd : d ≠ 0) (h : buf.drop s = List.replicate k d ++ [0]) :
    strtokR [d] buf s = some ⟨none, buf, s + k⟩ := by
  have hskip : skipDelimiters [d] (buf.drop s) = some k := by
    rw [h]
    exact skipDelimiters_replicate k (by simp) (by simp) hd
  have hnul : buf[s + k]? = some 0 := by
    have hdrop := drop_of_append h
    rw [List.length_replicate] at hdrop
    exact getElem?_of_drop hdrop
  simp [strtokR, hskip, hnul]

lemma strtokR_token {buf : List UInt8} {s k : ℕ} {c : UInt8} (hd : d ≠ 0) (hw : w ≠ []) (hwd : d ∉ w) (h0 : 0 ∉ w)
    (hc : c = 0 ∨ c = d) (h : buf.drop s = List.replicate k d ++ (w ++ c :: r)) :
    strtokR [d] buf s = some (if c = 0 then ⟨some (s + k), buf, s + k + w.length⟩
      else ⟨some (s + k), buf.set (s + k + w.length) 0, s + k + w.length + 1⟩) := by
  have hstart : buf.drop (s + k) = w ++ c :: r := by
    have hdrop := drop_of_append h
    rwa [List.length_replicate] at hdrop
  have hend : buf[s + k + w.length]? = some c := getElem?_of_drop (drop_of_append hstart)
  obtain ⟨b, w', rfl⟩ := List.exists_cons_of_ne_nil hw
  rw [List.mem_cons, not_or] at hwd h0
  have hskip : skipDelimiters [d] (buf.drop s) = some k := by
    rw [h]
    exact skipDelimiters_replicate k (by simpa using .inl (Ne.symm hwd.1)) (by simp) hd
  have hfirst : buf[s + k]? = some b := getElem?_of_drop hstart
  have hlength : tokenLength [d] (buf.drop (s + k)) = some (b :: w').length := by
    rw [hstart]
    exact tokenLength_append (by simpa using hwd) (by simpa using h0) hc
  rw [strtokR, hskip]
  simp only [Option.bind_eq_bind, Option.bind_some, hfirst, Option.some_inj, Ne.symm h0.1, if_false, hlength, hend]
  split <;> rfl

lemma strtokR_spec {buf rest : List UInt8} {s : ℕ} (hd : d ≠ 0) (h : buf.drop s = rest ++ [0]) (h0 : 0 ∉ rest) :
    (pieces d rest = [] ∧ ∃ t, strtokR [d] buf s = some t ∧ t.token = none) ∨
      ∃ t w rest', strtokR [d] buf s = some t ∧ Yields t w rest' ∧ pieces d rest = w :: pieces d rest' ∧
        w ≠ [] ∧ 0 ∉ w ∧ 0 ∉ rest' ∧ rest'.length < rest.length := by
  rcases split_pieces d rest with ⟨k, rfl⟩ | ⟨k, w, hw, hwd, rfl | ⟨r, rfl⟩⟩
  · refine .inl ⟨?_, _, strtokR_done hd h, rfl⟩
    rw [← List.append_nil (List.replicate k d), pieces_replicate_append, pieces_nil]
  · right
    have hw0 : 0 ∉ w := fun hm => h0 (List.mem_append_right _ hm)
    rw [List.append_assoc] at h
    have hdrop := drop_of_append h
    rw [List.length_replicate] at hdrop
    refine ⟨_, w, [], strtokR_token hd hw hwd hw0 (.inl rfl) h, ⟨⟨s + k, [], rfl, hdrop⟩, drop_of_append hdrop⟩,
      ?_, hw, hw0,
      List.not_mem_nil, ?_⟩
    · rw [pieces_replicate_append, pieces_word hw hwd, pieces_nil]
    · have := List.length_pos_of_ne_nil hw
      simp only [List.length_nil, List.length_append]
      omega
  · right
    have hw0 : 0 ∉ w := fun hm => h0 (List.mem_append_right _ (List.mem_append_left _ hm))
    have hr0 : 0 ∉ r :=
      fun hm => h0 (List.mem_append_right _ (List.mem_append_right _ (List.mem_cons_of_mem _ hm)))
    have h' : buf.drop s = List.replicate k d ++ (w ++ d :: (r ++ [0])) := by rw [h]; simp
    have hdrop := drop_of_append h'
    rw [List.length_replicate] at hdrop
    have htoken := strtokR_token hd hw hwd hw0 (.inr rfl) h'
    rw [if_neg hd] at htoken
    refine ⟨_, w, r, htoken, ⟨⟨s + k, r ++ [0], rfl, ?_⟩, ?_⟩, ?_, hw, hw0, hr0, ?_⟩
    · -- the delimiter behind the piece has become its NUL
      change (buf.set (s + k + w.length) 0).drop (s + k) = w ++ 0 :: (r ++ [0])
      rw [List.drop_set, if_neg (by omega), hdrop, Nat.add_sub_cancel_left, List.set_append_right _ _ le_rfl,
        Nat.sub_self]
      rfl
    · change (buf.set (s + k + w.length) 0).drop (s + k + w.length + 1) = r ++ [0]
      rw [List.drop_set_of_lt (by omega), ← List.drop_drop, drop_of_append hdrop]
      rfl
    · rw [pieces_replicate_append, pieces_word_append hw hwd]
    · simp only [List.length_append, List.length_cons]
      omega

end CourseArchive.PintOS
