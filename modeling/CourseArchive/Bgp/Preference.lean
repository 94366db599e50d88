import CourseArchive.Bgp.Machine
import CourseArchive.Lib.AnyLess
import Mathlib.Data.Prod.Lex

/-! The order in which `print_routes` lists the routes to a destination. -/

namespace CourseArchive.Bgp

open Lib

/-- The loop of `comparator_for_path` over the AS numbers of two paths of one length; the second test is the first
one again. -/
def asesLess : List UInt16 → List UInt16 → Bool
  | first :: firsts, second :: seconds =>
    if first < second then true
    else if first < second then false
    else asesLess firsts seconds
  | _, _ => false

def comparatorForPath (first second : HopByHopPath) : Bool :=
  if first.priority > second.priority then true
  else if first.priority < second.priority then false
  else if first.ases.length < second.ases.length then true
  else if first.ases.length > second.ases.length then false
  else if first.startInterface < second.startInterface then true
  else if first.startInterface > second.startInterface then false
  else asesLess first.ases second.ases

def AddressPrefix.dotted (target : AddressPrefix) : String :=
  let byte (k : ℕ) := toString (target.ip.toNat / 2 ^ (8 * k) % 256)
  byte 3 ++ "." ++ byte 2 ++ "." ++ byte 1 ++ "." ++ byte 0 ++ "/" ++ toString target.mask.toNat

def HopByHopPath.printed (target : AddressPrefix) (item : HopByHopPath) : String :=
  String.join (item.ases.map fun number => toString number.toNat ++ " ") ++ target.dotted

namespace SimulatedMachine

variable {n : ℕ} {m : SimulatedMachine n} {target : AddressPrefix} {S : StdSort}

def routesTo (m : SimulatedMachine n) (target : AddressPrefix) : List HopByHopPath :=
  m.paths.filter fun item => item.destination.ip = target.ip ∧ item.destination.mask = target.mask

def sortedRoutes (S : StdSort) (m : SimulatedMachine n) (target : AddressPrefix) : List HopByHopPath :=
  S.sort comparatorForPath (m.routesTo target)

def printRoutes (S : StdSort) (m : SimulatedMachine n) (target : AddressPrefix) : List String :=
  (if m.routesTo target = [] then ["no routes found for " ++ target.dotted] else []) ++
    (m.sortedRoutes S target).map (HopByHopPath.printed target)

end SimulatedMachine

namespace HopByHopPath

variable {p q : HopByHopPath}

def path (p : HopByHopPath) : List ℕ := p.ases.map UInt16.toNat

def rank (p : HopByHopPath) : ℤᵒᵈ ×ₗ ℕ ×ₗ ℤ ×ₗ List ℕ :=
  toLex (OrderDual.toDual p.priority, toLex (p.ases.length, toLex (p.startInterface, p.path)))

structure Tied (p q : HopByHopPath) : Prop where
  priority : p.priority = q.priority
  length : p.ases.length = q.ases.length
  startInterface : p.startInterface = q.startInterface

lemma length_path (p : HopByHopPath) : p.path.length = p.ases.length := List.length_map _

lemma Tied.symm (h : Tied p q) : Tied q p := ⟨h.priority.symm, h.length.symm, h.startInterface.symm⟩

lemma Tied.length_path (h : Tied p q) : p.path.length = q.path.length := by
  rw [p.length_path, q.length_path, h.length]

end HopByHopPath

open HopByHopPath

variable {p q : HopByHopPath}

lemma asesLess_eq (xs ys : List UInt16) :
    asesLess xs ys = anyLess (xs.map UInt16.toNat) (ys.map UInt16.toNat) := by
  induction xs generalizing ys with
  | nil => rfl
  | cons x xs ih =>
    cases ys with
    | nil => rfl
    | cons y ys =>
      rw [asesLess, List.map_cons, List.map_cons, anyLess, ← ih]
      by_cases hxy : x < y
      · simp [hxy, UInt16.lt_iff_toNat_lt.mp hxy]
      · have hnat : ¬x.toNat < y.toNat := fun h => hxy (UInt16.lt_iff_toNat_lt.mpr h)
        simp [hxy, hnat]

lemma comparatorForPath_tied (h : Tied p q) : comparatorForPath p q = anyLess p.path q.path := by
  rw [comparatorForPath, if_neg (by rw [h.priority]; exact lt_irrefl _),
    if_neg (by rw [h.priority]; exact lt_irrefl _),
    if_neg (by rw [h.length]; exact lt_irrefl _), if_neg (by rw [h.length]; exact lt_irrefl _),
    if_neg (by rw [h.startInterface]; exact lt_irrefl _), if_neg (by rw [h.startInterface]; exact lt_irrefl _),
    asesLess_eq]
  rfl

lemma rank_lt_iff (p q : HopByHopPath) : p.rank < q.rank ↔ q.priority < p.priority ∨ p.priority = q.priority ∧
    (p.ases.length < q.ases.length ∨ p.ases.length = q.ases.length ∧
      (p.startInterface < q.startInterface ∨ p.startInterface = q.startInterface ∧ p.path < q.path)) := by
  simp only [rank, Prod.Lex.toLex_lt_toLex, OrderDual.toDual_lt_toDual, OrderDual.toDual_inj]

lemma rank_lt_iff_of_tied (h : Tied p q) : p.rank < q.rank ↔ p.path < q.path := by
  simp [rank_lt_iff, h.priority, h.length, h.startInterface]

lemma comparatorForPath_iff_of_not_tied (h : ¬Tied p q) : comparatorForPath p q = true ↔ p.rank < q.rank := by
  rw [rank_lt_iff, comparatorForPath]
  rcases lt_trichotomy p.priority q.priority with hp | hp | hp
  · simp [hp, hp.not_gt, hp.ne]
  · rcases lt_trichotomy p.ases.length q.ases.length with hl | hl | hl
    · simp [hp, hl]
    · rcases lt_trichotomy p.startInterface q.startInterface with hi | hi | hi
      · simp [hp, hl, hi]
      · exact absurd ⟨hp, hl, hi⟩ h
      · simp [hp, hl, hi, hi.not_gt, hi.ne']
    · simp [hp, hl, hl.not_gt, hl.ne']
  · simp [hp]

namespace SimulatedMachine

variable {n : ℕ} {m : SimulatedMachine n} {target : AddressPrefix} {S : StdSort}

def Uncrossed (m : SimulatedMachine n) (target : AddressPrefix) : Prop :=
  ∀ p ∈ m.routesTo target, ∀ q ∈ m.routesTo target, Tied p q → Comparable p.path q.path

lemma Uncrossed.comparatorForPath_iff (h : m.Uncrossed target) (hp : p ∈ m.routesTo target)
    (hq : q ∈ m.routesTo target) :
    comparatorForPath p q = true ↔ p.rank < q.rank := by
  by_cases htied : Tied p q
  · rw [comparatorForPath_tied htied, (h p hp q hq htied).anyLess_iff htied.length_path, rank_lt_iff_of_tied htied]
  · exact comparatorForPath_iff_of_not_tied htied

lemma Uncrossed.strictWeakOn (h : m.Uncrossed target) : StrictWeakOn comparatorForPath (m.routesTo target) :=
  .of_key HopByHopPath.rank fun _ hp _ hq => h.comparatorForPath_iff hp hq

lemma uncrossed_of_strictWeakOn (h : StrictWeakOn comparatorForPath (m.routesTo target)) : m.Uncrossed target := by
  intro p hp q hq htied
  rw [comparable_iff htied.length_path, ← comparatorForPath_tied htied, ← comparatorForPath_tied htied.symm]
  cases hpq : comparatorForPath p q with
  | false => exact .inl rfl
  | true => exact .inr (h.asymm hp hq hpq)

structure Ranked (S : StdSort) (m : SimulatedMachine n) (target : AddressPrefix) : Prop where
  perm : (m.sortedRoutes S target).Perm (m.routesTo target)
  ordered : (m.sortedRoutes S target).Pairwise fun p q => p.rank ≤ q.rank

lemma Uncrossed.ranked (h : m.Uncrossed target) (S : StdSort) : m.Ranked S target := by
  have hperm : (m.sortedRoutes S target).Perm (m.routesTo target) := S.perm _ _ h.strictWeakOn
  refine ⟨hperm, (S.ordered _ _ h.strictWeakOn).imp_of_mem fun {p q} hp hq hless => ?_⟩
  rw [← Bool.not_eq_true, h.comparatorForPath_iff (hperm.mem_iff.mp hq) (hperm.mem_iff.mp hp)] at hless
  exact not_lt.mp hless

lemma exists_sort_of_crossed (h : ¬m.Uncrossed target) : ∃ S : StdSort, S.Rearranges ∧ ¬m.Ranked S target := by
  -- where paths cross, even a sort that only rearranges what it gets may list the routes out of order
  have hkeys : ∃ p ∈ m.routesTo target, ∃ q ∈ m.routesTo target, p.rank ≠ q.rank := by
    by_contra hn
    push Not at hn
    refine h fun p hp q hq _ => ?_
    have hpath : p.path = q.path := by
      have hrank := hn p hp q hq
      simp only [HopByHopPath.rank, EmbeddingLike.apply_eq_iff_eq, Prod.mk.injEq] at hrank
      exact hrank.2.2.2
    exact .inl (hpath ▸ List.forall₂_refl _)
  obtain ⟨S, hS, p, rest, hsort, q, hq, hlt⟩ :=
    exists_sort_disordered (fun hweak => h (uncrossed_of_strictWeakOn hweak)) hkeys
  refine ⟨S, hS, fun hranked => ?_⟩
  have hordered := hranked.ordered
  rw [sortedRoutes, hsort] at hordered
  exact absurd hlt (not_lt_of_ge ((List.pairwise_cons.mp hordered).1 q hq))

/-- The comparison is a strict weak order on the routes to a destination, and tells tied routes apart by their AS
paths, exactly if none of their paths cross; and exactly then every sort lists the routes in order, whether it
keeps to the standard only or rearranges every range. -/
theorem routes_ranked_iff (m : SimulatedMachine n) (target : AddressPrefix) :
    (StrictWeakOn comparatorForPath (m.routesTo target) ∧
        (∀ p ∈ m.routesTo target, ∀ q ∈ m.routesTo target, Tied p q →
          (comparatorForPath p q = true ↔ p.path < q.path)) ↔ m.Uncrossed target) ∧
      ((∀ S : StdSort, m.Ranked S target) ↔ m.Uncrossed target) ∧
      ((∀ S : StdSort, S.Rearranges → m.Ranked S target) ↔ m.Uncrossed target) := by
  have hsorts : (∀ S : StdSort, S.Rearranges → m.Ranked S target) → m.Uncrossed target := by
    intro h
    by_contra hcrossed
    obtain ⟨S, hS, hno⟩ := exists_sort_of_crossed hcrossed
    exact hno (h S hS)
  refine ⟨⟨fun h => uncrossed_of_strictWeakOn h.1, fun h => ⟨h.strictWeakOn, fun p hp q hq htied => ?_⟩⟩,
    ⟨fun h => hsorts fun S _ => h S, fun h S => h.ranked S⟩, ⟨hsorts, fun h S _ => h.ranked S⟩⟩
  rw [h.comparatorForPath_iff hp hq, rank_lt_iff_of_tied htied]

/-! Two routes of one length, with the second AS number smaller in one and the third in the other. -/

def crossedRoute (ases : List UInt16) : HopByHopPath := ⟨100, ases, 0, ⟨167772160, 8⟩, .customer⟩

def crossedTable : SimulatedMachine 1 where
  ifaceIp _ := 1
  ifsmArray _ := ⟨.established, 30, 240, 31, false, false, 0, 2, .customer⟩
  asNumber := 1
  assets := []
  paths := [crossedRoute [1, 2, 5, 9], crossedRoute [1, 3, 4, 9]]

theorem crossed_routes : comparatorForPath (crossedRoute [1, 2, 5, 9]) (crossedRoute [1, 3, 4, 9]) = true ∧
    comparatorForPath (crossedRoute [1, 3, 4, 9]) (crossedRoute [1, 2, 5, 9]) = true ∧
    crossedTable.printRoutes insertionSorting ⟨167772160, 8⟩ = ["1 3 4 9 10.0.0.0/8", "1 2 5 9 10.0.0.0/8"] := by
  decide

end SimulatedMachine

end CourseArchive.Bgp
