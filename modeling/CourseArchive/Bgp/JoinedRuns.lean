import CourseArchive.Bgp.Joined

/-! The runs of two joined machines: on whose answer a session is established, and how long it lasts. -/

namespace CourseArchive.Bgp

open Lib SimulatedMachine

namespace Joined

variable {L : Link} {s t : Joined L} {x : Side} {mv : JoinedMove L} {info : ∀ x, CustomInformation (L.count x)}
  {timer : ∀ x, Fin (L.count x) → UInt8}

lemma sound_initial : (initial L info timer).Sound where
  index _ _ := rfl
  typed y e he := by cases y <;> cases he
  short y p hp := by
    obtain ⟨asset, -, rfl⟩ := List.mem_map.mp hp
    simp

def timers (L : Link) (timer : ∀ x, Fin (L.count x) → UInt8) : Both (ℕ × ℕ × ℕ) :=
  let at_ x := (timer x (L.port x)).toNat
  ⟨(at_ .left, at_ .left, at_ .left), (at_ .right, at_ .right, at_ .right)⟩

lemma pair_initial : (initial L info timer).pair = Pair.initial (timers L timer) := rfl

lemma pair_reaches {ok : Joined L → JoinedMove L → Prop} (ok' : Pair → PairMove → Prop)
    (hok : ∀ s mv mv', ok s mv → pairMove mv = some mv' → ok' s.pair mv') (hs : s.Sound)
    (h : Reaches step ok s t) :
    t.Sound ∧ Reaches Pair.step ok' s.pair t.pair := by
  induction h with
  | refl => exact ⟨hs, .refl⟩
  | tail _ hlast ih =>
    obtain ⟨mv, hmv, hstep⟩ := hlast
    obtain ⟨hsound, hrun⟩ := ih
    obtain ⟨hsound', hsim⟩ := step_simulates hsound hstep
    refine ⟨hsound', ?_⟩
    rw [Simulates] at hsim
    cases hpm : pairMove mv with
    | none =>
      rw [hpm] at hsim
      have hsame : _ = _ := hsim
      rwa [hsame]
    | some mv' =>
      rw [hpm] at hsim
      exact hrun.tail ⟨mv', hok _ mv mv' hmv hpm, hsim⟩

def lift (L : Link) : PairMove → JoinedMove L
  | .start x => .start x (L.port x)
  | .tick x => .tick x
  | .deliver x => .deliver x fun _ => 0
  | .announce x => .withdraw x ⟨0, 0⟩

lemma step_lift (h : s.Sound) {mv : PairMove} {p : Pair} (hp : s.pair.step mv = some p) :
    ∃ t, s.step (lift L mv) = some t ∧ t.Sound ∧ t.pair = p := by
  have hmove : pairMove (lift L mv) = some mv := by
    cases mv <;> simp [pairMove, lift]
  obtain ⟨t, hstep⟩ : ∃ t, s.step (lift L mv) = some t := by
    cases mv with
    | start x => exact ⟨_, rfl⟩
    | tick x => exact ⟨_, rfl⟩
    | announce x => exact ⟨_, rfl⟩
    | deliver x =>
      rw [Pair.step, pair_inFlight] at hp
      cases he : s.inFlight.get x with
      | nil => simp [he] at hp
      | cons e rest => exact ⟨_, by rw [lift, step, he]⟩
  obtain ⟨hsound, hsim⟩ := step_simulates h hstep
  refine ⟨t, hstep, hsound, ?_⟩
  rw [Simulates, hmove] at hsim
  have hsim : s.pair.step mv = some t.pair := hsim
  exact Option.some_injective _ (hsim.symm.trans hp)

lemma exists_lift (ok : Joined L → JoinedMove L → Prop) {ok' : Pair → PairMove → Prop}
    (hok : ∀ s mv, ok' s.pair mv → ok s (lift L mv)) (hs : s.Sound) {p : Pair}
    (h : Reaches Pair.step ok' s.pair p) :
    ∃ t, Reaches step ok s t ∧ t.Sound ∧ t.pair = p := by
  induction h with
  | refl => exact ⟨s, .refl, hs, rfl⟩
  | tail _ hlast ih =>
    obtain ⟨mv, hmv, hstep⟩ := hlast
    obtain ⟨t, hrun, hsound, rfl⟩ := ih
    obtain ⟨u, hu, hsound', hpair⟩ := step_lift hsound hstep
    exact ⟨u, hrun.tail ⟨lift L mv, hok t mv hmv, hu⟩, hsound', hpair⟩

/-! Which attempt an established session belongs to. -/

/-- Who enters `ESTABLISHED` does so on a `KEEPALIVE` that answers an `OPEN` of its own, and one of its present
attempt if this began cleanly: with no `OPEN` of its own on the way out, and no `SYN+ACK` or `ACK` on the way in
that an `OPEN` and a `KEEPALIVE` follow. -/
theorem keepalive_answers_own_open (h : Reaches step anyMove (initial L info timer) s) (hstep : s.step mv = some t)
    (hne : (s.session x).currentState ≠ .established) (he : (t.session x).currentState = .established) :
    ∃ tail e rest, mv = .deliver x tail ∧ s.inFlight.get x = e :: rest ∧ frameType e.frame = .keepalive ∧
      e.attempt ∈ (s.history.get x).opened ∧
      ((s.history.get x).clean → e.attempt = (s.history.get x).attempt) := by
  obtain ⟨hsound, hrun⟩ := pair_reaches anyMove (fun _ _ _ _ _ => trivial) sound_initial h
  obtain ⟨-, hsim⟩ := step_simulates hsound hstep
  have hne' : (s.pair.session.get x).state ≠ .established := by rwa [pair_session]
  have he' : (t.pair.session.get x).state = .established := by rwa [pair_session]
  rw [Simulates] at hsim
  cases hpm : pairMove mv with
  | none =>
    rw [hpm] at hsim
    have hsame : t.pair = s.pair := hsim
    rw [hsame] at he'
    exact absurd he' hne'
  | some mv' =>
    rw [hpm] at hsim
    rw [pair_initial] at hrun
    obtain ⟨rfl, m, mrest, hin, htype, hattempt⟩ :=
      Pair.answered_attempt (Pair.traced_of_reaches hrun x) hsim hne' he'
    rw [pair_inFlight] at hin
    obtain ⟨e, rest, hframes, rfl, rfl⟩ := List.map_eq_cons_iff.mp hin
    cases mv with
    | deliver y tail =>
      obtain rfl : y = x := by simpa [pairMove] using hpm
      exact ⟨tail, e, rest, rfl, hframes, htype, hattempt⟩
    | start y i =>
      rw [pairMove] at hpm
      split_ifs at hpm
      cases hpm
    | tick | advertise | withdraw | highjack | prioritySet | printRoutes => cases hpm

def smallLink : Link := ⟨fun _ => 1, fun _ => 0⟩

def smallStart : Joined smallLink :=
  initial smallLink (fun _ => ⟨fun _ => 1, 7, [], fun _ => 2, fun _ => .peer⟩) fun _ _ => 0

def handshake : List PairMove :=
  [.start .left, .start .right, .deliver .right, .deliver .left, .deliver .left, .deliver .right, .deliver .right,
    .deliver .right, .deliver .left, .deliver .left]

lemma exists_delivery {α : Type} {moves : List PairMove} {view : Pair → Pair → α} {a : α}
    (h : ((play Pair.step smallStart.pair moves).bind fun p => (p.step (.deliver .left)).map (view p)) = some a) :
    ∃ s t : Joined smallLink, Reaches step anyMove smallStart s ∧ s.step (.deliver .left fun _ => 0) = some t ∧
      view s.pair t.pair = a := by
  obtain ⟨p, hp, h⟩ := Option.bind_eq_some_iff.mp h
  obtain ⟨q, hq, rfl⟩ := Option.map_eq_some_iff.mp h
  obtain ⟨s, hrun, hsound, rfl⟩ :=
    exists_lift anyMove (fun _ _ _ => trivial) sound_initial (reaches_of_play moves hp)
  obtain ⟨t, ht, -, rfl⟩ := step_lift hsound hq
  exact ⟨s, t, hrun, ht, rfl⟩

theorem keepalive_answers_own_open_sample : ∃ s t : Joined smallLink, Reaches step anyMove smallStart s ∧
    s.step (.deliver .left fun _ => 0) = some t ∧ (s.session .left).currentState = .oConfirm ∧
    (t.session .left).currentState = .established ∧
    ∃ e rest, s.inFlight.get .left = e :: rest ∧ e.attempt = (s.history.get .left).attempt := by
  have h : ((play Pair.step smallStart.pair handshake).bind fun p => (p.step (.deliver .left)).map fun q =>
      (p.session.left.state, q.session.left.state, p.history.left.clean)) =
      some (.oConfirm, .established, true) := by
    decide
  obtain ⟨s, t, hrun, hstep, hview⟩ := exists_delivery h
  obtain ⟨hs, ht, hclean⟩ := by simpa only [Prod.mk.injEq] using hview
  have hs : (s.session .left).currentState = .oConfirm := hs
  have ht : (t.session .left).currentState = .established := ht
  obtain ⟨-, e, rest, -, hin, -, -, hattempt⟩ := keepalive_answers_own_open hrun hstep (by rw [hs]; decide) ht
  exact ⟨s, t, hrun, hstep, hs, ht, e, rest, hin, hattempt hclean⟩

def mixedMoves : List PairMove :=
  [PairMove.start .left, .start .right] ++ List.replicate 61 (PairMove.tick .left) ++
    [PairMove.deliver .right, .deliver .right, .deliver .left, .deliver .left, .deliver .right, .deliver .right,
      .deliver .right] ++
    List.replicate 240 (PairMove.tick .left) ++ [PairMove.deliver .left, .deliver .left, .deliver .left]

theorem attempts_mixed : ∃ s t : Joined smallLink, Reaches step anyMove smallStart s ∧
    s.step (.deliver .left fun _ => 0) = some t ∧ (s.session .left).currentState = .oConfirm ∧
    (t.session .left).currentState = .established ∧
    ∃ e, s.inFlight.get .left = [e] ∧ frameType e.frame = .keepalive ∧ e.attempt = 2 ∧
      (s.history.get .left).attempt = 3 := by
  have h : ((play Pair.step smallStart.pair mixedMoves).bind fun p => (p.step (.deliver .left)).map fun q =>
      (p.session.left.state, q.session.left.state, p.inFlight.left, p.history.left.attempt)) =
        some (.oConfirm, .established, [⟨.keepalive, 2⟩], 3) := by
    decide +kernel
  obtain ⟨s, t, hrun, hstep, hview⟩ := exists_delivery h
  obtain ⟨hs, ht, hin, hattempt⟩ := by simpa only [Prod.mk.injEq] using hview
  obtain ⟨e, he, hmessage⟩ := List.map_eq_singleton_iff.mp hin
  obtain ⟨htype, htag⟩ := Message.mk.inj hmessage
  exact ⟨s, t, hrun, hstep, hs, ht, e, he, htype, htag, hattempt⟩

/-! How long an established session lasts. -/

def Prompt (s : Joined L) : JoinedMove L → Prop
  | .tick _ => s.inFlight = ⟨[], []⟩
  | _ => True

/-- No end ticks 240 times without a `KEEPALIVE` or an announcement of the other end. -/
def Refreshed (s : Joined L) (mv : JoinedMove L) : Prop :=
  s.Prompt mv ∧ ∀ x, mv = .tick x → (s.history.get x).unheard < 239

lemma prompt_pair {mv' : PairMove} (h : s.Prompt mv) (hpm : pairMove mv = some mv') : s.pair.Prompt mv' := by
  cases mv with
  | tick x =>
    obtain rfl : PairMove.tick x = mv' := Option.some_injective _ hpm
    have h : s.inFlight = ⟨[], []⟩ := h
    change Both.mk _ _ = _
    rw [h]
    rfl
  | start y i =>
    rw [pairMove] at hpm
    split_ifs at hpm
    obtain rfl := Option.some_injective _ hpm
    trivial
  | deliver | advertise | withdraw | highjack =>
    obtain rfl := Option.some_injective _ hpm
    trivial
  | prioritySet | printRoutes => cases hpm

lemma prompt_lift (s : Joined L) (mv : PairMove) (h : s.pair.Prompt mv) : s.Prompt (lift L mv) := by
  cases mv with
  | tick x =>
    have h := congrArg (fun b => (b.left, b.right)) (show s.pair.inFlight = ⟨[], []⟩ from h)
    obtain ⟨hl, hr⟩ := Prod.mk_inj.mp h
    exact Both.ext_get fun y => by
      cases y
      · exact List.map_eq_nil_iff.mp hl
      · exact List.map_eq_nil_iff.mp hr
  | start | deliver | announce => trivial

lemma leaves_iff (h : Reaches step Prompt (initial L info timer) s) (hmv : s.Prompt mv)
    (hstep : s.step mv = some t) (hs : (s.session x).currentState = .established) :
    (t.session x).currentState ≠ .established ↔ mv = .tick x ∧ (s.history.get x).unheard = 239 := by
  obtain ⟨hsound, hrun⟩ := pair_reaches Pair.Prompt (fun _ _ _ => prompt_pair) sound_initial h
  obtain ⟨-, hsim⟩ := step_simulates hsound hstep
  have hs' : (s.pair.session.get x).state = .established := by rwa [pair_session]
  have ht : (t.session x).currentState = (t.pair.session.get x).state := by rw [pair_session]; rfl
  rw [Simulates] at hsim
  rw [ht]
  cases hpm : pairMove mv with
  | none =>
    rw [hpm] at hsim
    have hsame : t.pair = s.pair := hsim
    have hne : mv ≠ .tick x := by
      rintro rfl
      cases hpm
    rw [hsame]
    simp only [hs', ne_eq, not_true_eq_false, hne, false_and]
  | some mv' =>
    rw [hpm] at hsim
    rw [Pair.leaves_iff (Pair.heard_of_reaches (pair_initial ▸ hrun) x) (prompt_pair hmv hpm) hsim hs']
    refine and_congr_left fun _ => ⟨?_, ?_⟩
    · rintro rfl
      cases mv with
      | tick y => exact congrArg _ (PairMove.tick.inj (Option.some_injective _ hpm))
      | start y i =>
        rw [pairMove] at hpm
        split_ifs at hpm
        cases hpm
      | deliver | advertise | withdraw | highjack | prioritySet | printRoutes => cases hpm
    · rintro rfl
      exact (Option.some_injective _ hpm).symm

/-- An established end leaves `ESTABLISHED` exactly at the 240th tick without a `KEEPALIVE` or an announcement of
the other end, so that both stay there for as long as each of them announces something often enough. -/
theorem session_survives (h : Reaches step Prompt (initial L info timer) s)
    (hs : ∀ x, (s.session x).currentState = .established) :
    (∀ t, Reaches step Refreshed s t → ∀ x, (t.session x).currentState = .established) ∧
    ∀ x mv t, s.Prompt mv → s.step mv = some t →
      ((t.session x).currentState ≠ .established ↔ mv = .tick x ∧ (s.history.get x).unheard = 239) := by
  refine ⟨fun t ht => ?_, fun x mv t hmv hstep => leaves_iff h hmv hstep (hs x)⟩
  suffices hboth :
    Reaches step Prompt (initial L info timer) t ∧ ∀ x, (t.session x).currentState = .established from
    hboth.2
  refine ht.invariant (fun t => Reaches step Prompt (initial L info timer) t ∧
    ∀ x, (t.session x).currentState = .established) ?_ ⟨h, hs⟩
  rintro u mv v ⟨hrun, hu⟩ ⟨hprompt, hfew⟩ hstep
  refine ⟨hrun.tail ⟨mv, hprompt, hstep⟩, fun x => ?_⟩
  by_contra hleft
  obtain ⟨rfl, hlast⟩ := (leaves_iff hrun hprompt hstep (hu x)).mp hleft
  have := hfew x rfl
  omega

def establishedPair : Pair :=
  ⟨⟨⟨.established, 30, 240, 31, false, false⟩, ⟨.established, 30, 240, 31, false, false⟩⟩, ⟨[], []⟩,
    ⟨⟨1, [1], true, 0⟩, ⟨1, [1], true, 0⟩⟩⟩

lemma exists_established : ∃ s : Joined smallLink, Reaches step Prompt smallStart s ∧ s.Sound ∧
    s.pair = establishedPair ∧ ∀ x, (s.session x).currentState = .established := by
  let moves : List PairMove := handshake ++ [PairMove.deliver .left, .deliver .right]
  have hplay : play Pair.step smallStart.pair moves = some establishedPair := by decide
  have hprompt : AllOk Pair.step Pair.Prompt smallStart.pair moves := by decide
  obtain ⟨s, hrun, hsound, hpair⟩ :=
    exists_lift Prompt prompt_lift sound_initial (reaches_of_allOk _ hprompt hplay)
  refine ⟨s, hrun, hsound, hpair, fun x => ?_⟩
  have hstate : (s.session x).currentState = (s.pair.session.get x).state := by rw [pair_session]; rfl
  rw [hstate, hpair]
  cases x <;> rfl

theorem session_survives_sample : ∃ s : Joined smallLink, Reaches step Prompt smallStart s ∧
    (∀ x, (s.session x).currentState = .established) ∧
    ∀ t, Reaches step Refreshed s t → ∀ x, (t.session x).currentState = .established :=
  let ⟨s, hrun, _, _, hs⟩ := exists_established
  ⟨s, hrun, hs, (session_survives hrun hs).1⟩

theorem session_expires : ∃ s t : Joined smallLink, Reaches step Prompt smallStart s ∧
    (∀ x, (s.session x).currentState = .established) ∧
    Reaches step (fun u mv => u.Prompt mv ∧ ∃ x, mv = .tick x) s t ∧
    (t.session .left).currentState ≠ .established := by
  obtain ⟨s, hrun, hsound, hpair, hs⟩ := exists_established
  let ticks : List PairMove := .replicate 240 (.tick .left)
  have hplay : ∃ q, play Pair.step establishedPair ticks = some q ∧ q.session.left.state ≠ .established := by
    decide +kernel
  have hprompt : AllOk Pair.step (fun p mv => p.Prompt mv ∧ mv = .tick .left) establishedPair ticks := by
    decide +kernel
  obtain ⟨q, hq, hleft⟩ := hplay
  rw [← hpair] at hq hprompt
  obtain ⟨t, hrun', -, rfl⟩ := exists_lift (fun u mv => u.Prompt mv ∧ ∃ x, mv = .tick x)
    (fun u mv h => ⟨prompt_lift u mv h.1, .left, by rw [h.2]; rfl⟩) hsound (reaches_of_allOk _ hprompt hq)
  exact ⟨s, t, hrun, hs, hrun', hleft⟩

end Joined

end CourseArchive.Bgp
