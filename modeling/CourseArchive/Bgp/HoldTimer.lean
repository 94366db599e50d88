import CourseArchive.Bgp.Pair

/-! How long two joined sessions stay in `ESTABLISHED` when every frame arrives before the next tick. -/

namespace CourseArchive.Bgp

open Lib Session

lemma History.recordAll_unheard (h : History) (clean : Bool) (sig : List Signal) :
    (h.recordAll clean sig).unheard = h.unheard := by
  induction sig generalizing h with
  | nil => rfl
  | cons x sig ih =>
    refine (ih (h.record clean x)).trans ?_
    cases x with
    | sent type => cases type <;> rfl
    | changed first second => cases second <;> rfl

namespace Session

variable {s : Session} {type : MessageType}

lemma receive_refreshes (h : type = .keepalive ∨ type = .update) (he : (s.receive type).1.state = .established) :
    (s.receive type).1.ht = 240 := by
  rcases h with rfl | rfl
  · by_cases hc : s.state = .oConfirm
    · simp [receive, hc]
    · by_cases hs : s.state = .established
      · simp [receive, hs]
      · simp [receive, hc, hs] at he
  · by_cases hs : s.state = .established
    · simp [receive, hs]
    · simp [receive, hs] at he

lemma receive_keeps (hk : type ≠ .keepalive) (hu : type ≠ .update) (he : (s.receive type).1.state = .established) :
    s.state = .established ∧ (s.receive type).1.ht = s.ht := by
  have hs : s.state = .established := by
    by_contra hs
    exact hk (receive_established hs he).1
  refine ⟨hs, ?_⟩
  cases type with
  | keepalive => exact absurd rfl hk
  | update => exact absurd rfl hu
  | syn | ack | synAck | bgpOpen | invalid => simp [receive, Connecting, hs]

lemma receive_stays (type : MessageType) (hs : s.state = .established) :
    (s.receive type).1.state = .established := by
  cases type <;> simp [receive, Connecting, hs]

end Session

structure Heard (s : Session) (h : History) (incoming : List Message) : Prop where
  fresh : (∃ e ∈ incoming, e.type = .update) → h.unheard = 0
  live : s.state = .established → 1 ≤ s.ht ∧ (s.ht + h.unheard = 240 ∨ ∃ e ∈ incoming, e.type = .update)

namespace Heard

variable {s t : Session} {h h' : History} {incoming sent rest : List Message} {e : Message}

lemma initial (rto ht crt : ℕ) : Heard ⟨.idle, rto, ht, crt, false, false⟩ .initial [] := ⟨by simp, by simp⟩

lemma of_unheard (hh : Heard s h incoming) (he : h'.unheard = h.unheard) : Heard s h' incoming :=
  ⟨fun hu => he ▸ hh.fresh hu, fun hs => he ▸ hh.live hs⟩

lemma of_session (hh : Heard s h incoming) (ht : t.state = .established → s.state = .established ∧ t.ht = s.ht) :
    Heard t h incoming :=
  ⟨hh.fresh, fun he => by rw [(ht he).2]; exact hh.live (ht he).1⟩

lemma append (hh : Heard s h incoming) (hs : ∀ m ∈ sent, m.type ≠ .update) : Heard s h (incoming ++ sent) where
  fresh := by
    rintro ⟨m, hm, hu⟩
    exact hh.fresh ⟨m, (List.mem_append.mp hm).resolve_right fun hm => hs m hm hu, hu⟩
  live he := (hh.live he).imp id fun hor => hor.imp id fun ⟨m, hm, hu⟩ => ⟨m, List.mem_append_left _ hm, hu⟩

lemma announced (hh : Heard s h incoming) : Heard s { h with unheard := 0 } (incoming ++ [⟨.update, 0⟩]) where
  fresh _ := rfl
  live he := ⟨(hh.live he).1, .inr ⟨_, List.mem_append_right _ (List.mem_singleton_self _), rfl⟩⟩

lemma received (hh : Heard s h (e :: rest)) (hu : h'.unheard = if e.type = .keepalive then 0 else h.unheard) :
    Heard (s.receive e.type).1 h' rest := by
  have hfresh : (∃ m ∈ e :: rest, m.type = .update) → h'.unheard = 0 := by
    intro hm
    rw [hu, hh.fresh hm, ite_self]
  refine ⟨fun ⟨m, hm, ht⟩ => hfresh ⟨m, List.mem_cons_of_mem _ hm, ht⟩, fun he => ?_⟩
  by_cases hkeep : e.type = .keepalive
  · rw [receive_refreshes (.inl hkeep) he, hu, if_pos hkeep]
    exact ⟨by simp, .inl rfl⟩
  by_cases hupdate : e.type = .update
  · rw [receive_refreshes (.inr hupdate) he, hfresh ⟨e, List.mem_cons_self, hupdate⟩]
    exact ⟨by simp, .inl rfl⟩
  · obtain ⟨hs, hht⟩ := receive_keeps hkeep hupdate he
    rw [hht, hu, if_neg hkeep]
    refine (hh.live hs).imp id fun hor => hor.imp id fun ⟨m, hm, ht⟩ => ⟨m, ?_, ht⟩
    refine (List.mem_cons.mp hm).resolve_left ?_
    rintro rfl
    exact hupdate ht

lemma ticked (hh : Heard s h []) : Heard s.tick.1 { h with unheard := h.unheard + 1 } [] := by
  refine ⟨by simp, fun he => ?_⟩
  have hs := established_of_quiet_or_enters (tick_quiet_or_enters s) he
  have hlive := hh.live hs
  by_cases hz : s.ht - 1 = 0
  · rw [tick_of_expired (.inl hs) hz] at he
    cases he
  · rw [tick_of_holding (.inl hs) hz]
    simp only [List.not_mem_nil, false_and, exists_false, or_false] at hlive ⊢
    omega

lemma tick_leaves (hh : Heard s h []) (hs : s.state = .established) :
    s.tick.1.state ≠ .established ↔ h.unheard = 239 := by
  have hlive := hh.live hs
  simp only [List.not_mem_nil, false_and, exists_false, or_false] at hlive
  by_cases hz : s.ht - 1 = 0
  · rw [tick_of_expired (.inl hs) hz]
    simp only [ne_eq, reduceCtorEq, not_false_eq_true, true_iff]
    omega
  · rw [tick_of_holding (.inl hs) hz]
    simp only [hs, ne_eq, not_true_eq_false, false_iff]
    omega

end Heard

namespace Pair

variable {p p' : Pair} {x : Side} {mv : PairMove}

def Heard (p : Pair) (x : Side) : Prop := Bgp.Heard (p.session.get x) (p.history.get x) (p.inFlight.get x)

def Prompt (p : Pair) : PairMove → Prop
  | .tick _ => p.inFlight = ⟨[], []⟩
  | _ => True

instance (p : Pair) : (mv : PairMove) → Decidable (p.Prompt mv)
  | .tick _ => inferInstanceAs (Decidable (p.inFlight = ⟨[], []⟩))
  | .start _ | .deliver _ | .announce _ => inferInstanceAs (Decidable True)

lemma inFlight_of_prompt (h : p.Prompt (.tick x)) (y : Side) : p.inFlight.get y = [] := by
  have h : p.inFlight = ⟨[], []⟩ := h
  rw [h]
  cases y <;> rfl

lemma heard_of_both (h : p.Heard x) (h' : p.Heard x.other) (y : Side) : p.Heard y := by
  rcases x.eq_or_eq_other y with rfl | rfl
  · exact h
  · exact h'

lemma no_update_of_quiet_or_enters {s : Session} {r : Session × List Signal} (h : s.Quiet r ∨ Enters r) :
    ∀ type ∈ r.2.filterMap sentType, type ≠ .update := by
  rcases h with h | h <;> simp [h.sends]

lemma heard_act {answered : ℕ} {r : Session × List Signal}
    (hself : Bgp.Heard r.1 (p.history.get x) (p.inFlight.get x))
    (hother : p.Heard x.other) (hs : ∀ type ∈ r.2.filterMap sentType, type ≠ .update) (y : Side) :
    (p.act x answered r).Heard y := by
  refine heard_of_both (x := x) ?_ ?_ y
  all_goals simp only [Heard, act_session, act_session_other, act_incoming, act_outgoing, act_history_other]
  · rw [act_history]
    exact hself.of_unheard (History.recordAll_unheard _ _ _)
  · refine hother.append fun m hm => ?_
    obtain ⟨type, htype, rfl⟩ := List.mem_map.mp hm
    exact hs type htype

lemma heard_announce (h : ∀ y, p.Heard y) (y : Side) :
    ((p.setUnheard x.other 0).act x 0 (p.session.get x, [.sent .update])).Heard y := by
  have hself : p.Heard x := h x
  have hother : p.Heard x.other := h x.other
  refine heard_of_both (x := x) ?_ ?_ y
  all_goals simp only [Heard, act_session, act_session_other, act_incoming, act_outgoing, act_history_other]
  · rw [act_history]
    refine hself.of_unheard ((History.recordAll_unheard _ _ _).trans ?_)
    simp [setUnheard]
  · simpa [setUnheard, sentType, History.attemptOf] using Bgp.Heard.announced hother

lemma heard_step (h : ∀ y, p.Heard y) (hp : p.Prompt mv) (hstep : p.step mv = some p') (y : Side) :
    p'.Heard y := by
  cases mv with
  | start x =>
    obtain rfl := Option.some_injective _ hstep
    have hq := start_quiet_or_enters (p.session.get x)
    refine heard_act ((h x).of_session fun he => ?_) (h x.other) (no_update_of_quiet_or_enters hq) y
    have hs := established_of_quiet_or_enters hq he
    simp [start, hs]
  | tick x =>
    obtain rfl := Option.some_injective _ hstep
    have hempty := inFlight_of_prompt hp
    have hself : Bgp.Heard (p.session.get x) (p.history.get x) [] := hempty x ▸ h x
    have hother : p.Heard x.other := h x.other
    refine heard_act ?_ ?_ (no_update_of_quiet_or_enters (tick_quiet_or_enters _)) y
    · simp only [setUnheard, Both.get_set, hempty]
      exact hself.ticked
    · simpa [Heard, setUnheard] using hother
  | announce x =>
    rw [step] at hstep
    split_ifs at hstep
    · obtain rfl := Option.some_injective _ hstep
      exact heard_announce h y
    · obtain rfl := Option.some_injective _ hstep
      exact h y
  | deliver x =>
    rw [step] at hstep
    cases he : p.inFlight.get x with
    | nil => simp [he] at hstep
    | cons e rest =>
      rw [he] at hstep
      obtain rfl := Option.some_injective _ hstep
      have hself : Bgp.Heard (p.session.get x) (p.history.get x) (e :: rest) := he ▸ h x
      refine heard_act ?_ ?_ (fun type ht => ((receive_answers _ _).sends type ht).1) y
      · have hin : (p.take x e rest).inFlight.get x = rest := Both.get_set x
        rw [hin]
        refine hself.received ?_
        simp only [take]
        split_ifs
        · rw [Both.get_set]
        · rfl
      · have hother : p.Heard x.other := h x.other
        simp only [Heard, take, Both.get_set_other]
        split_ifs
        · rwa [Both.get_set_other]
        · exact hother

lemma heard_of_reaches {timers : Both (ℕ × ℕ × ℕ)} (h : Reaches step Prompt (initial timers) p) (x : Side) :
    p.Heard x := by
  refine h.invariant (fun p => ∀ x, p.Heard x) (fun _ _ _ hp hok hstep => heard_step hp hok hstep) (fun y => ?_) x
  cases y <;> exact Bgp.Heard.initial _ _ _

lemma act_stays {y : Side} {answered : ℕ} {r : Session × List Signal}
    (hr : (p.session.get y).state = .established → r.1.state = .established)
    (hs : (p.session.get x).state = .established) : ((p.act y answered r).session.get x).state = .established := by
  rcases y.eq_or_eq_other x with rfl | rfl
  · rw [act_session]
    exact hr hs
  · rwa [act_session_other]

lemma leaves_iff (h : p.Heard x) (hp : p.Prompt mv) (hstep : p.step mv = some p')
    (hs : (p.session.get x).state = .established) :
    (p'.session.get x).state ≠ .established ↔ mv = .tick x ∧ (p.history.get x).unheard = 239 := by
  cases mv with
  | start y =>
    obtain rfl := Option.some_injective _ hstep
    have hstay : ((p.act y 0 (p.session.get y).start).session.get x).state = .established :=
      act_stays (fun he => by simp [start, he]) hs
    simp [hstay]
  | announce y =>
    rw [step] at hstep
    have hstay : (p'.session.get x).state = .established := by
      split_ifs at hstep
      · obtain rfl := Option.some_injective _ hstep
        exact act_stays (p := p.setUnheard y.other 0) (r := (p.session.get y, [.sent .update])) id hs
      · obtain rfl := Option.some_injective _ hstep
        exact hs
    simp [hstay]
  | deliver y =>
    rw [step] at hstep
    cases he : p.inFlight.get y with
    | nil => simp [he] at hstep
    | cons e rest =>
      rw [he] at hstep
      obtain rfl := Option.some_injective _ hstep
      have hstay : (((p.take y e rest).act y e.attempt ((p.session.get y).receive e.type)).session.get x).state =
          .established := act_stays (p := p.take y e rest) (receive_stays _) hs
      simp [hstay]
  | tick y =>
    obtain rfl := Option.some_injective _ hstep
    rcases y.eq_or_eq_other x with rfl | rfl
    · have hself : Bgp.Heard (p.session.get x) (p.history.get x) [] :=
        inFlight_of_prompt hp x ▸ h
      rw [act_session, hself.tick_leaves hs]
      simp
    · have hne : y ≠ y.other := by cases y <;> decide
      have hstay : (p.session.get y.other).state = .established := hs
      rw [act_session_other]
      simp [setUnheard, hstay, hne]

end Pair

end CourseArchive.Bgp
