import Mathlib.Data.List.Infix
import Mathlib.Data.List.TakeWhile

/-! The token array of a command line on its way to `execv`. -/

namespace CourseArchive.Shell

abbrev Tok := List Char

def MAXTOKS : ℕ := 100

structure Args where
  cells : List (Option Tok)
  size : cells.length = MAXTOKS

namespace Args

def ofToks (toks : List Tok) (h : toks.length < MAXTOKS) : Args where
  cells := toks.map some ++ List.replicate (MAXTOKS - toks.length) none
  size := by
    rw [List.length_append, List.length_map, List.length_replicate]
    omega

def clear (arg : Args) (i : ℕ) : Args where
  cells := arg.cells.set i none
  size := by rw [List.length_set, arg.size]

end Args

def upToNull : List (Option Tok) → List Tok
  | some t :: cells => t :: upToNull cells
  | _ => []

def Args.toToks (arg : Args) : List Tok := upToNull arg.cells

def starts (R : Char) (t : Tok) : Bool := t.head? == some R

def findTok (R : Char) : List (Option Tok) → Option ℕ
  | some t :: cells => if starts R t then some 0 else (findTok R cells).map (· + 1)
  | _ => none

def isDirectTok (arg : Args) (R : Char) : Option ℕ := findTok R (arg.cells.take (MAXTOKS - 1))

def isBackground (arg : Args) : Args × Bool :=
  match isDirectTok arg '&' with
  | some (ind + 1) => (arg.clear (ind + 1), true)
  | _ => (arg, false)

/-- What is opened, and over which descriptor it is put; a NULL path makes `open` fail. -/
inductive Opened
  | stdin (path : Option Tok)
  | stdout (path : Option Tok)
  deriving DecidableEq

def redirect (f : Option Tok → Opened) (pos : Option ℕ) (s : Args × List Opened) : Args × List Opened :=
  match pos with
  | some i => ((s.1.clear i).clear (i + 1), s.2 ++ [f (s.1.cells[i + 1]?.getD none)])
  | none => s

def fileRedirect (arg : Args) : Args × List Opened :=
  let inFile := isDirectTok arg '<'
  let outFile := isDirectTok arg '>'
  -- both places are looked up before either is cleared
  redirect .stdout outFile (redirect .stdin inFile (arg, []))

/-- The array after both, which `dirfunc` passes to `execv`. -/
def execArgs (arg : Args) : Args := (fileRedirect (isBackground arg).1).1

/-! Every access stays inside the array, and clearing a cell cuts what is read up to the first NULL. -/

variable {cells : List (Option Tok)} {arg : Args} {toks : List Tok} {R : Char} {i : ℕ}

lemma findTok_lt (h : findTok R cells = some i) : i < cells.length := by
  induction cells generalizing i with
  | nil => cases h
  | cons c cells ih =>
    cases c with
    | none => cases h
    | some t =>
      rw [findTok] at h
      split at h
      · cases h
        exact Nat.succ_pos _
      · obtain ⟨j, hj, rfl⟩ := Option.map_eq_some_iff.mp h
        exact Nat.succ_lt_succ (ih hj)

lemma isDirectTok_lt (h : isDirectTok arg R = some i) : i + 1 < arg.cells.length := by
  have hi := findTok_lt h
  rw [List.length_take, arg.size, MAXTOKS] at hi
  rw [arg.size, MAXTOKS]
  omega

lemma findTok_eq : findTok R cells = (upToNull cells).findIdx? (starts R) := by
  induction cells with
  | nil => rfl
  | cons c cells ih =>
    cases c with
    | none => rfl
    | some t => rw [findTok, upToNull, List.findIdx?_cons, ih]

lemma upToNull_take (n : ℕ) : upToNull (cells.take n) = (upToNull cells).take n := by
  induction cells generalizing n with
  | nil => simp [upToNull]
  | cons c cells ih =>
    cases n with
    | zero => simp [upToNull]
    | succ n =>
      cases c with
      | none => rfl
      | some t => simp only [List.take_succ_cons, upToNull, ih]

lemma upToNull_set (hi : i < cells.length) : upToNull (cells.set i none) = (upToNull cells).take i := by
  induction cells generalizing i with
  | nil => cases hi
  | cons c cells ih =>
    cases i with
    | zero => simp [upToNull]
    | succ i =>
      cases c with
      | none => rfl
      | some t => rw [List.set_cons_succ, upToNull, upToNull, ih (Nat.lt_of_succ_lt_succ hi), List.take_succ_cons]

lemma Args.toToks_clear (hi : i < arg.cells.length) : (arg.clear i).toToks = arg.toToks.take i := upToNull_set hi

lemma Args.toToks_ofToks (h : toks.length < MAXTOKS) : (Args.ofToks toks h).toToks = toks := by
  have hnull : ∀ n, 0 < n → upToNull (List.replicate n none) = [] := by
    rintro (_ | n) hn
    · cases hn
    · rfl
  have hall : ∀ n, 0 < n → upToNull (toks.map some ++ List.replicate n none) = toks := by
    intro n hn
    clear h
    induction toks with
    | nil => exact hnull n hn
    | cons t toks ih => rw [List.map_cons, List.cons_append, upToNull, ih]
  exact hall _ (Nat.sub_pos_of_lt h)

lemma isDirectTok_eq (h : arg.toToks.length < MAXTOKS) : isDirectTok arg R = arg.toToks.findIdx? (starts R) := by
  rw [isDirectTok, findTok_eq, upToNull_take, ← Args.toToks, List.take_of_length_le (by omega)]

def cutAt (pos : Option ℕ) (toks : List Tok) : List Tok := pos.elim toks toks.take

lemma cutAt_findIdx? (toks : List Tok) (p q : Tok → Bool) :
    cutAt (toks.findIdx? q) (toks.takeWhile p) = toks.takeWhile fun t => p t && !q t := by
  induction toks with
  | nil => rfl
  | cons t toks ih =>
    rw [List.findIdx?_cons, List.takeWhile_cons, List.takeWhile_cons]
    cases hq : q t
    · cases hp : p t
      · cases toks.findIdx? q <;> simp [cutAt]
      · simp only [Bool.not_false, Bool.and_true, if_true, Bool.false_eq_true, if_false, ← ih]
        cases toks.findIdx? q <;> rfl
    · cases hp : p t <;> rfl

lemma cutAt_findIdx?_self (q : Tok → Bool) : cutAt (toks.findIdx? q) toks = toks.takeWhile fun t => !q t := by
  have hall : toks.takeWhile (fun _ => true) = toks := List.takeWhile_eq_self_iff.mpr fun _ _ => rfl
  have hcut := cutAt_findIdx? toks (fun _ => true) q
  rwa [hall] at hcut

lemma toToks_redirect {f : Option Tok → Opened} {pos : Option ℕ} {s : Args × List Opened}
    (h : ∀ i, pos = some i → i + 1 < s.1.cells.length) : (redirect f pos s).1.toToks = cutAt pos s.1.toToks := by
  cases pos with
  | none => rfl
  | some i =>
    have hi := h i rfl
    have hsize : i + 1 < (s.1.clear i).cells.length := by rwa [(s.1.clear i).size, ← s.1.size]
    rw [redirect, Args.toToks_clear hsize, Args.toToks_clear (Nat.lt_of_succ_lt hi), List.take_take,
      min_eq_right (Nat.le_succ i)]
    rfl

lemma toToks_fileRedirect (h : arg.toToks.length < MAXTOKS) :
    (fileRedirect arg).1.toToks = arg.toToks.takeWhile fun t => !starts '<' t && !starts '>' t := by
  have hin : ∀ i, isDirectTok arg '<' = some i → i + 1 < arg.cells.length := fun i => isDirectTok_lt
  have hout : ∀ i, isDirectTok arg '>' = some i →
      i + 1 < (redirect .stdin (isDirectTok arg '<') (arg, [])).1.cells.length := by
    intro i hi
    rw [Args.size, ← arg.size]
    exact isDirectTok_lt hi
  rw [fileRedirect, toToks_redirect hout, toToks_redirect hin, isDirectTok_eq h, isDirectTok_eq h]
  rw [cutAt_findIdx?_self, cutAt_findIdx?]

lemma toToks_isBackground (h : arg.toToks.length < MAXTOKS) : (isBackground arg).1.toToks =
    arg.toToks.takeWhile fun t => arg.toToks.head?.any (starts '&') || !starts '&' t := by
  have hpos := isDirectTok_eq (R := '&') h
  cases hhead : arg.toToks.head?.any (starts '&') with
  | false =>
    have hcut : (isBackground arg).1.toToks = cutAt (isDirectTok arg '&') arg.toToks := by
      rw [isBackground]
      match hp : isDirectTok arg '&' with
      | none => rfl
      | some 0 =>
        rw [hp] at hpos
        have hfirst := List.findIdx?_eq_some_iff_getElem.mp hpos.symm
        obtain ⟨hlt, hstarts, -⟩ := hfirst
        rw [List.head?_eq_getElem?, List.getElem?_eq_getElem hlt, Option.any_some, hstarts] at hhead
        cases hhead
      | some (ind + 1) => exact Args.toToks_clear (Nat.lt_of_succ_lt (isDirectTok_lt hp))
    rw [hcut, hpos, cutAt_findIdx?_self]
    rfl
  | true =>
    -- a marker at the front is found but not taken out
    have hzero : isDirectTok arg '&' = some 0 := by
      cases htoks : arg.toToks with
      | nil =>
        rw [htoks] at hhead
        cases hhead
      | cons t rest =>
        rw [htoks] at hhead
        rw [hpos, htoks, List.findIdx?_cons, if_pos (show starts '&' t = true from hhead)]
    rw [isBackground, hzero]
    exact (List.takeWhile_eq_self_iff.mpr fun t _ => rfl).symm

/-! What a command line asks for. -/

/-- Which tokens are operators: at least the bare characters, and only tokens that begin with them. -/
structure Reading where
  redirects : Tok → Bool
  marks : Tok → Bool
  redirects_in : redirects ['<'] = true
  redirects_out : redirects ['>'] = true
  marks_bare : marks ['&'] = true
  redirects_starts : ∀ t, redirects t = true → starts '<' t = true ∨ starts '>' t = true
  marks_starts : ∀ t, marks t = true → starts '&' t = true

namespace Reading

def bare : Reading where
  redirects t := t == ['<'] || t == ['>']
  marks t := t == ['&']
  redirects_in := rfl
  redirects_out := rfl
  marks_bare := rfl
  redirects_starts t ht := by
    simp only [Bool.or_eq_true, beq_iff_eq] at ht
    exact ht.imp (fun h => by rw [h]; rfl) (fun h => by rw [h]; rfl)
  marks_starts t ht := by
    rw [eq_of_beq ht]
    rfl

def leading : Reading where
  redirects t := starts '<' t || starts '>' t
  marks := starts '&'
  redirects_in := rfl
  redirects_out := rfl
  marks_bare := rfl
  redirects_starts _ ht := by simpa using ht
  marks_starts _ ht := ht

variable (g : Reading)

/-- The list without the operators, their operands and the markers; `operand` tells that one is due. -/
def strip : (operand : Bool) → List Tok → List Tok
  | _, [] => []
  | true, _ :: toks => strip false toks
  | false, t :: toks =>
    if g.redirects t then strip true toks else if g.marks t then strip false toks else t :: strip false toks

def OnlyOperators : (operand : Bool) → List Tok → Prop
  | _, [] => True
  | true, _ :: toks => OnlyOperators false toks
  | false, t :: toks => if g.redirects t then OnlyOperators true toks else g.marks t ∧ OnlyOperators false toks

end Reading

def isKept (toks : List Tok) (t : Tok) : Bool :=
  (toks.head?.any (starts '&') || !starts '&' t) && (!starts '<' t && !starts '>' t)

lemma toToks_execArgs (h : arg.toToks.length < MAXTOKS) :
    (execArgs arg).toToks = arg.toToks.takeWhile (isKept arg.toToks) := by
  have hb := toToks_isBackground h
  have hlt : (isBackground arg).1.toToks.length < MAXTOKS := by
    rw [hb]
    exact (List.takeWhile_prefix _).length_le.trans_lt h
  rw [execArgs, toToks_fileRedirect hlt, hb, List.takeWhile_takeWhile]
  congr 1
  funext t
  simp [isKept, Bool.and_comm]

namespace Reading

variable {g : Reading} {operand : Bool}

lemma not_marks_of_mem_strip {t : Tok} (h : t ∈ g.strip operand toks) : g.marks t = false := by
  fun_induction strip g operand toks with
  | case1 => cases h
  | case2 _ _ ih => exact ih h
  | case3 _ _ _ ih => exact ih h
  | case4 _ _ _ _ ih => exact ih h
  | case5 u us _ hu ih =>
    rcases List.mem_cons.mp h with rfl | h
    · simpa using hu
    · exact ih h

lemma strip_eq_nil_iff : g.strip operand toks = [] ↔ g.OnlyOperators operand toks := by
  fun_induction strip g operand toks with
  | case1 => simp [OnlyOperators]
  | case2 _ _ ih => exact ih
  | case3 _ _ hr ih => rw [OnlyOperators, if_pos hr, ih]
  | case4 _ _ hr hm ih => rw [OnlyOperators, if_neg hr, ih, and_iff_right hm]
  | case5 _ _ hr hm ih => simp [OnlyOperators, hr, hm]

lemma strip_append (hkeep : ∀ t ∈ toks, g.redirects t = false) (rest : List Tok) :
    g.strip false (toks ++ rest) = (toks.filter fun t => !g.marks t) ++ g.strip false rest := by
  induction toks with
  | nil => rfl
  | cons t toks ih =>
    have ih := ih fun u hu => hkeep u (List.mem_cons_of_mem t hu)
    rw [List.cons_append, strip, if_neg (by simpa using hkeep t List.mem_cons_self), ih, List.filter_cons]
    cases g.marks t <;> rfl

lemma redirects_of_isKept {all : List Tok} {t : Tok} (h : isKept all t = true) : g.redirects t = false := by
  by_contra hr
  have hs := g.redirects_starts t (by simpa using hr)
  simp only [isKept, Bool.and_eq_true, Bool.not_eq_true'] at h
  rcases hs with hs | hs
  · rw [hs] at h
    exact Bool.noConfusion h.2.1
  · rw [hs] at h
    exact Bool.noConfusion h.2.2

end Reading

/-- Both scans cut the line at the first operator, so nothing that the line asks to keep may follow it. -/
theorem argument_vector_iff (g : Reading) (toks : List Tok) (h : toks.length < MAXTOKS) :
    (execArgs (Args.ofToks toks h)).toToks = g.strip false toks ↔
      (∀ t ∈ toks.takeWhile (isKept toks), g.marks t = false) ∧
        g.OnlyOperators false (toks.dropWhile (isKept toks)) := by
  have hto := Args.toToks_ofToks h
  have hlt : (Args.ofToks toks h).toToks.length < MAXTOKS := by rwa [hto]
  have hcode := toToks_execArgs hlt
  rw [hto] at hcode
  have hplain : ∀ t ∈ toks.takeWhile (isKept toks), g.redirects t = false :=
    fun t ht => Reading.redirects_of_isKept (List.mem_takeWhile_imp ht)
  have hspec := Reading.strip_append hplain (toks.dropWhile (isKept toks))
  rw [List.takeWhile_append_dropWhile] at hspec
  rw [hcode, ← Reading.strip_eq_nil_iff]
  constructor
  · intro heq
    have hmarks : ∀ t ∈ toks.takeWhile (isKept toks), g.marks t = false := by
      rw [heq]
      exact fun t ht => Reading.not_marks_of_mem_strip ht
    rw [List.filter_eq_self.mpr fun t ht => by rw [hmarks t ht]; rfl] at hspec
    exact ⟨hmarks, List.self_eq_append_right.mp (heq.trans hspec)⟩
  · rintro ⟨hmarks, hnil⟩
    rw [hspec, hnil, List.append_nil, List.filter_eq_self.mpr fun t ht => by rw [hmarks t ht]; rfl]

theorem argument_vector_iff_in : (execArgs (Args.ofToks [['w', 'c'], ['<'], ['i', 'n']] (by decide))).toToks =
    Reading.bare.strip false [['w', 'c'], ['<'], ['i', 'n']] :=
  (argument_vector_iff Reading.bare [['w', 'c'], ['<'], ['i', 'n']] (by decide)).mpr
    ⟨by decide, Reading.strip_eq_nil_iff.mp (by decide)⟩

def sortReversed : List Tok := [['s', 'o', 'r', 't'], ['<'], ['i', 'n'], ['-', 'r']]

theorem argument_lost :
    (execArgs (Args.ofToks sortReversed (by decide))).toToks ≠ Reading.bare.strip false sortReversed ∧
    (execArgs (Args.ofToks sortReversed (by decide))).toToks ≠ Reading.leading.strip false sortReversed := by
  have hcode : (execArgs (Args.ofToks sortReversed (by decide))).toToks = [['s', 'o', 'r', 't']] := by decide
  rw [hcode]
  decide

end CourseArchive.Shell
