import CourseArchive.Bgp.Machine

/-! Which routes a withdrawal takes out of the table. -/

namespace CourseArchive.Bgp

open Lib

def Trash (target : AddressPrefix) (path : HopByHopPath) : Prop :=
  path.destination.ip = target.ip ∧ path.destination.mask ≠ 0

instance (target : AddressPrefix) (path : HopByHopPath) : Decidable (Trash target path) :=
  inferInstanceAs (Decidable (_ ∧ _))

/-- The loop of `empty_trash_path`, with the position of `item` in place of the iterator. Stepping back from the
first place and forward again is taken to come back to it. -/
def emptyTrashLoop (target : AddressPrefix) (paths : List HopByHopPath) (item : ℤ) : List HopByHopPath :=
  if h : 0 ≤ item ∧ item < paths.length then
    have : item.toNat < paths.length := by omega
    if Trash target paths[item.toNat] then emptyTrashLoop target (paths.eraseIdx item.toNat) (item - 1 + 1)
    else emptyTrashLoop target paths (item + 1)
  else paths
termination_by paths.length - item.toNat
decreasing_by
  · rw [List.length_eraseIdx_of_lt this]
    omega
  · omega

variable {target : AddressPrefix} {targets : List AddressPrefix}

lemma emptyTrashLoop_eq {item : ℤ} (h : 0 ≤ item) (paths : List HopByHopPath) :
    emptyTrashLoop target paths item =
      paths.take item.toNat ++ (paths.drop item.toNat).filter fun path => ¬Trash target path := by
  -- at every place the loop has sorted out what stands before it
  induction paths, item using emptyTrashLoop.induct target with
  | case1 paths item hin hlt htrash ih =>
    rw [emptyTrashLoop, dif_pos hin, if_pos htrash, ih (by omega), Int.sub_add_cancel,
      List.take_eraseIdx_eq_take_of_le _ _ _ le_rfl, List.drop_eq_getElem_cons hlt,
      List.filter_cons_of_neg (by simpa using htrash), List.eraseIdx_eq_take_drop_succ,
      List.drop_left' (by simp; omega)]
  | case2 paths item hin hlt htrash ih =>
    have hnext : (item + 1).toNat = item.toNat + 1 := by omega
    rw [emptyTrashLoop, dif_pos hin, if_neg htrash, ih (by omega), hnext, List.drop_eq_getElem_cons hlt,
      List.filter_cons_of_pos (by simpa using htrash), List.take_succ_eq_append_getElem hlt, List.append_assoc,
      List.singleton_append]
  | case3 paths item hout =>
    have hlen : paths.length ≤ item.toNat := by omega
    rw [emptyTrashLoop, dif_neg hout, List.take_of_length_le hlen, List.drop_of_length_le hlen, List.filter_nil,
      List.append_nil]

namespace SimulatedMachine

variable {n : ℕ} {m : SimulatedMachine n}

def without (m : SimulatedMachine n) (target : AddressPrefix) : SimulatedMachine n :=
  { m with paths := m.paths.filter fun path => path.destination ≠ target }

def MasksTell (m : SimulatedMachine n) (targets : List AddressPrefix) : Prop :=
  ∀ path ∈ m.paths, (∃ target ∈ targets, path.destination.ip = target.ip) →
    (path.destination ∈ targets ↔ path.destination.mask ≠ 0)

lemma emptyTrashPath_eq (m : SimulatedMachine n) (target : AddressPrefix) :
    m.emptyTrashPath target = { m with paths := emptyTrashLoop target m.paths 0 } := by
  rw [emptyTrashLoop_eq le_rfl]
  rfl

lemma foldl_emptyTrashPath_eq (targets : List AddressPrefix) (m : SimulatedMachine n) :
    targets.foldl emptyTrashPath m =
    { m with paths := m.paths.filter fun path => ∀ target ∈ targets, ¬Trash target path } := by
  induction targets generalizing m with
  | nil => simp
  | cons target targets ih =>
    rw [List.foldl_cons, ih]
    simp [emptyTrashPath, Trash, List.filter_filter, Bool.and_comm]

lemma foldl_without_eq (targets : List AddressPrefix) (m : SimulatedMachine n) :
    targets.foldl without m = { m with paths := m.paths.filter fun path => path.destination ∉ targets } := by
  induction targets generalizing m with
  | nil => simp
  | cons target targets ih =>
    rw [List.foldl_cons, ih]
    simp [without, List.filter_filter, Bool.and_comm]

lemma foldl_emptyTrashPath_eq_iff (m : SimulatedMachine n) (targets : List AddressPrefix) :
    targets.foldl emptyTrashPath m = targets.foldl without m ↔ m.MasksTell targets := by
  have hfilter : targets.foldl emptyTrashPath m = targets.foldl without m ↔
      ∀ path ∈ m.paths, ((∀ target ∈ targets, ¬Trash target path) ↔ path.destination ∉ targets) := by
    rw [foldl_emptyTrashPath_eq, foldl_without_eq]
    simp only [SimulatedMachine.mk.injEq, true_and]
    constructor
    · intro h path hpath
      have hmem := congrArg (path ∈ ·) h
      simpa only [List.mem_filter, hpath, true_and, decide_eq_true_eq, eq_iff_iff] using hmem
    · exact fun h => List.filter_congr fun path hpath => decide_eq_decide.mpr (h path hpath)
  rw [hfilter]
  refine forall₂_congr fun path _ => ?_
  have htrash : (∃ target ∈ targets, Trash target path) ↔
      (∃ target ∈ targets, path.destination.ip = target.ip) ∧ path.destination.mask ≠ 0 := by
    simp only [Trash, ← and_assoc, exists_and_right]
  have hsame : path.destination ∈ targets → ∃ target ∈ targets, path.destination.ip = target.ip :=
    fun h => ⟨_, h, rfl⟩
  have hnone : (∀ target ∈ targets, ¬Trash target path) ↔ ¬∃ target ∈ targets, Trash target path := by
    simp only [not_exists, not_and]
  rw [hnone, not_iff_not, htrash]
  constructor
  · exact fun h haddr => ⟨fun hmem => (h.mpr hmem).2, fun hmask => h.mp ⟨haddr, hmask⟩⟩
  · exact fun h => ⟨fun htr => (h htr.1).mpr htr.2, fun hmem => ⟨hsame hmem, (h (hsame hmem)).mp hmem⟩⟩

lemma foldl_without_perm {order : List AddressPrefix} (h : order.Perm targets) (m : SimulatedMachine n) :
    order.foldl without m = targets.foldl without m := by
  simp only [foldl_without_eq, h.mem_iff]

theorem withdrawn_exactly_iff (m : SimulatedMachine n) (target : AddressPrefix) (frame : Buffer)
    (ifaceIndex : Fin n) (doff number : ℕ) :
    (emptyTrashLoop target m.paths 0 = (m.without target).paths ↔ m.MasksTell [target]) ∧
      ((m.withdraw target).1 = m.without target ↔ m.MasksTell [target]) ∧
      ((∀ order : List AddressPrefix, order.Perm (withdrawnPrefixes frame.data doff number) →
          (m.handleWithdrawnRoutes frame ifaceIndex doff number).1 = order.foldl without m) ↔
        m.MasksTell (withdrawnPrefixes frame.data doff number)) := by
  have hone := m.foldl_emptyTrashPath_eq_iff [target]
  refine ⟨?_, hone, ?_⟩
  · rw [← hone, List.foldl_cons, List.foldl_nil, emptyTrashPath_eq]
    exact ⟨fun h => by rw [h]; rfl, fun h => congrArg SimulatedMachine.paths h⟩
  · rw [← foldl_emptyTrashPath_eq_iff]
    exact ⟨fun h => h _ (.refl _), fun h order hperm => h.trans (foldl_without_perm hperm m).symm⟩

def routeTo (target : AddressPrefix) : HopByHopPath := ⟨100, [1, 2], 0, target, .customer⟩

theorem shorter_prefix_withdrawn :
    emptyTrashLoop ⟨167772160, 16⟩ [routeTo ⟨167772160, 8⟩, routeTo ⟨167772160, 16⟩] 0 = [] ∧
    ([routeTo ⟨167772160, 8⟩, routeTo ⟨167772160, 16⟩].filter fun path => path.destination ≠ ⟨167772160, 16⟩) =
      [routeTo ⟨167772160, 8⟩] := by
  rw [emptyTrashLoop_eq le_rfl]
  decide

end SimulatedMachine

end CourseArchive.Bgp
