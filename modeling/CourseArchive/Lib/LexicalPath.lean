import Mathlib.Data.List.Infix
import Mathlib.Data.List.DropRight

/-! Paths as they are reduced by their text alone. -/

namespace CourseArchive.Lib

variable {α : Type*}

inductive Component (α : Type*)
  | up
  | name (a : α)
  deriving DecidableEq

structure Trail (α : Type*) where
  ups : ℕ
  names : List α
  deriving DecidableEq

namespace Trail

def here : Trail α := ⟨0, []⟩

def step (t : Trail α) : Component α → Trail α
  | .up => if t.names = [] then ⟨t.ups + 1, []⟩ else ⟨t.ups, t.names.dropLast⟩
  | .name a => ⟨t.ups, t.names ++ [a]⟩

def walk (t : Trail α) (cs : List (Component α)) : Trail α := cs.foldl step t

def comp (s t : Trail α) : Trail α :=
  ⟨s.ups + (t.ups - s.names.length), s.names.take (s.names.length - t.ups) ++ t.names⟩

variable {s t : Trail α} {c : Component α} {cs ds : List (Component α)}

lemma comp_here : s.comp here = s := by
  simp [comp, here]

lemma comp_step : (s.comp t).step c = s.comp (t.step c) := by
  cases c with
  | name a => simp [step, comp]
  | up =>
    by_cases ht : t.names = []
    · -- the step goes up from where `t` has left `s`
      rw [step, step, if_pos ht, comp, comp, ht, List.append_nil, List.append_nil]
      rcases lt_or_ge t.ups s.names.length with hlt | hge
      · have hne : s.names.take (s.names.length - t.ups) ≠ [] := by
          rw [← List.length_pos_iff, List.length_take]
          omega
        have hlen : min ((s.names.take (s.names.length - t.ups)).length - 1) (s.names.length - t.ups) =
            s.names.length - (t.ups + 1) := by
          rw [List.length_take]
          omega
        rw [if_neg hne, List.dropLast_eq_take, List.take_take, hlen, Nat.sub_eq_zero_of_le hlt.le,
          Nat.sub_eq_zero_of_le hlt]
      · have hnil : s.names.take (s.names.length - t.ups) = [] := by
          rw [Nat.sub_eq_zero_of_le hge, List.take_zero]
        rw [if_pos hnil, Nat.sub_eq_zero_of_le (Nat.le_succ_of_le hge), List.take_zero, Nat.succ_sub hge]
        rfl
    · have hne : s.names.take (s.names.length - t.ups) ++ t.names ≠ [] := by simp [ht]
      rw [step, step, if_neg ht, comp, comp, if_neg hne, List.dropLast_append_of_ne_nil ht]

lemma walk_comp : (s.comp t).walk cs = s.comp (t.walk cs) := by
  induction cs generalizing t with
  | nil => rfl
  | cons c cs ih => rw [walk, List.foldl_cons, comp_step, ← walk, ih, walk, walk, List.foldl_cons]

lemma walk_append : t.walk (cs ++ ds) = (t.walk cs).comp (here.walk ds) := by
  rw [walk, List.foldl_append, ← walk, ← walk, ← walk_comp, comp_here]

structure Below (s t : Trail α) : Prop where
  ups : t.ups = s.ups
  names : s.names <+: t.names

lemma names_comp_prefix_iff {d r : Trail α} (hd : d.ups = 0 ∨ d.names = []) :
    (s.comp d).names <+: (s.comp r).names ↔ (s.comp d).names.drop (s.names.length - r.ups) <+: r.names := by
  have hkept : (s.comp d).names.take (s.names.length - r.ups) <+: s.names.take (s.names.length - r.ups) := by
    rcases hd with hd | hd
    · rw [comp, hd, Nat.sub_zero, List.take_length, List.take_append_of_le_length (Nat.sub_le _ _)]
    · rw [comp, hd, List.append_nil, List.take_take]
      exact List.take_prefix_take_left (min_le_left _ _)
  generalize (s.comp d).names = names at *
  rw [comp]
  generalize s.names.length - r.ups = n at *
  rcases le_or_gt n names.length with hn | hn
  · have htake : names.take n = s.names.take n := by
      refine hkept.eq_of_length_le ?_
      rw [List.length_take, List.length_take]
      omega
    rw [← htake]
    refine Iff.trans ?_ (List.prefix_append_right_inj (names.take n))
    rw [List.take_append_drop]
  · rw [List.drop_of_length_le hn.le]
    rw [List.take_of_length_le hn.le] at hkept
    exact iff_of_true (hkept.trans (List.prefix_append _ _)) List.nil_prefix

end Trail

open Trail

/-! Path names; 47 is the slash and 46 the dot. -/

def component? (name : List UInt8) : Option (Component (List UInt8)) :=
  if name = [] ∨ name = [46] then none else if name = [46, 46] then some .up else some (.name name)

def components (path : List UInt8) : List (Component (List UInt8)) := (path.splitOn 47).filterMap component?

def isAbsolute (path : List UInt8) : Bool := path.head? == some 47

def trail (path : List UInt8) : Trail (List UInt8) := here.walk (components path)

structure Location where
  absolute : Bool
  trail : Trail (List UInt8)
  deriving DecidableEq

def resolve (path : List UInt8) : Location :=
  ⟨isAbsolute path, if isAbsolute path then ⟨0, (trail path).names⟩ else trail path⟩

structure Location.Under (d l : Location) : Prop where
  absolute : l.absolute = d.absolute
  below : d.trail.Below l.trail

def parent (path : List UInt8) : List UInt8 := path.rdropWhile (· ≠ 47)

def base (path : List UInt8) : List UInt8 := path.rtakeWhile (· ≠ 47)

/-- What is appended to the path name `dir` leads to a place below it: where it takes the last component of `dir`
and goes up from there over some components of `dir`, it names them again. A relative `dir` is not left above its
start. -/
structure StaysUnder (dir rest : List UInt8) : Prop where
  absolute : isAbsolute (dir ++ rest) = isAbsolute dir
  start : isAbsolute dir = true ∨
    (trail (base dir ++ rest)).ups - (trail (parent dir)).names.length =
      (trail (base dir)).ups - (trail (parent dir)).names.length
  names : (trail dir).names.drop ((trail (parent dir)).names.length - (trail (base dir ++ rest)).ups) <+:
    (trail (base dir ++ rest)).names

variable {dir rest path xs ys : List UInt8}

lemma components_nil : components [] = [] := by
  simp [components, component?]

lemma components_append_slash : components (xs ++ 47 :: ys) = components xs ++ components ys := by
  rw [components, List.splitOn_append_cons_self, List.filterMap_append, components, components]

lemma parent_append_base (path : List UInt8) : parent path ++ base path = path := List.rdropWhile_append_rtakeWhile

lemma components_parent_append : components (parent path ++ ys) = components (parent path) ++ components ys := by
  by_cases hnil : parent path = []
  · rw [hnil]
    rfl
  · have hlast : (parent path).getLast hnil = 47 := by
      have hnot := List.rdropWhile_last_not _ _ hnil
      rwa [decide_eq_true_eq, ne_eq, not_not] at hnot
    have hsplit : parent path = (parent path).dropLast ++ 47 :: [] := by
      conv_lhs => rw [← List.dropLast_append_getLast hnil, hlast]
    rw [hsplit, List.append_assoc, List.cons_append, List.nil_append, components_append_slash,
      components_append_slash, components_nil, List.append_nil]

lemma trail_append (path rest : List UInt8) :
    trail (path ++ rest) = (trail (parent path)).comp (trail (base path ++ rest)) := by
  conv_lhs => rw [← parent_append_base path, List.append_assoc]
  rw [trail, components_parent_append, walk_append]
  rfl

lemma trail_base : (trail (base path)).ups = 0 ∨ (trail (base path)).names = [] := by
  have hno : 47 ∉ base path := fun h => by simpa using List.mem_rtakeWhile_imp h
  rw [trail, components, List.splitOn_eq_singleton hno, List.filterMap_cons, List.filterMap_nil]
  cases component? (base path) with
  | none => exact Or.inl rfl
  | some c =>
    cases c with
    | up => exact Or.inr rfl
    | name a => exact Or.inl rfl

lemma resolve_names : (resolve path).trail.names = (trail path).names := by
  rw [resolve]
  split <;> rfl

lemma resolve_ups : (resolve path).trail.ups = if isAbsolute path then 0 else (trail path).ups := by
  rw [resolve]
  split <;> rfl

theorem under_iff : (resolve dir).Under (resolve (dir ++ rest)) ↔ StaysUnder dir rest := by
  have hdir := trail_append dir []
  rw [List.append_nil, List.append_nil] at hdir
  have hnames : (resolve dir).trail.names <+: (resolve (dir ++ rest)).trail.names ↔
      (trail dir).names.drop ((trail (parent dir)).names.length - (trail (base dir ++ rest)).ups) <+:
        (trail (base dir ++ rest)).names := by
    rw [resolve_names, resolve_names, hdir, trail_append]
    exact names_comp_prefix_iff trail_base
  have hups : isAbsolute (dir ++ rest) = isAbsolute dir →
      ((resolve (dir ++ rest)).trail.ups = (resolve dir).trail.ups ↔ isAbsolute dir = true ∨
        (trail (base dir ++ rest)).ups - (trail (parent dir)).names.length =
          (trail (base dir)).ups - (trail (parent dir)).names.length) := by
    intro habs
    rw [resolve_ups, resolve_ups, habs]
    cases isAbsolute dir with
    | true => simp
    | false =>
      rw [hdir, trail_append, comp, comp]
      simp
  constructor
  · rintro ⟨habs, hbelow⟩
    exact ⟨habs, (hups habs).mp hbelow.ups, hnames.mp hbelow.names⟩
  · intro h
    exact ⟨h.absolute, (hups h.absolute).mpr h.start, hnames.mpr h.names⟩

end CourseArchive.Lib
