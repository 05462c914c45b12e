import VerifierHost.Proofs.Run.Chronicle
import VerifierHost.Proofs.Session.Steps

/-! # A session moves its engine

Whatever a session goes through, its engine goes through moves, and all that is shown comes of
them. So what holds of every chronicle holds of the engine of every session. -/

namespace VerifierHost.Session

variable {s t u : Session} {c : Chronicle} {n : Notice} {ns : List Notice} {id : TaskId}

/-- A chronicle has come to where a session is. -/
structure Follows (c : Chronicle) (s : Session) : Prop where
  engine : c.engine = s.engine
  shown : c.shown = s.shown

namespace Follows

theorem congr (h : Follows c s) (hengine : t.engine = s.engine) (hshown : t.shown = s.shown) :
    Follows c t :=
  ⟨h.engine.trans hengine.symm, h.shown.trans hshown.symm⟩

theorem add (h : Follows c s) (m : Move) (hengine : t.engine = (s.engine.play m).engine)
    (hshown : t.shown = s.shown ++ (s.engine.play m).effects) : Follows (c.add m) t := by
  refine ⟨?_, ?_⟩
  · rw [hengine, ← h.engine]
    rfl
  · rw [hshown, ← h.engine, ← h.shown]
    rfl

theorem refreshHints (h : Follows c s) : Follows (c.add .takeChanged) s.refreshHints := by
  refine h.add .takeChanged ?_ ?_
  · unfold Session.refreshHints
    dsimp only
    split <;> rfl
  · unfold Session.refreshHints
    dsimp only [Engine.play, findings]
    split
    next => exact showAll_shown ..
    next => exact (List.append_nil _).symm

/-- A run that is concluded shows its effects, and maybe hints are asked for anew. -/
theorem conclude {conclusion : Conclusion} (h : Follows c (s.showAll conclusion.effects))
    (id : TaskId) :
    ∃ moves, Follows (c.addAll moves) (s.conclude id conclusion) := by
  obtain ⟨v, answer, hv, hcases⟩ :=
    ((s.showAll conclusion.effects).noticeNews conclusion.released).answerRun_eq id
      conclusion.ending
  have hconclude : s.conclude id conclusion = v.endTask id answer := hv
  have hnews : Follows c ((s.showAll conclusion.effects).noticeNews conclusion.released) :=
    h.congr rfl rfl
  rw [hconclude]
  rcases hcases with rfl | rfl
  · exact ⟨[], hnews.congr rfl rfl⟩
  · exact ⟨[.takeChanged], hnews.refreshHints.congr rfl rfl⟩

theorem answerNews (h : Follows c s) : ∃ moves, Follows (c.addAll moves) (s.answerNews id) := by
  unfold Session.answerNews
  split
  next => exact ⟨[], h.congr rfl rfl⟩
  next file _ _ =>
    have hdraws : ∀ t : Session, t.engine = (s.hints file).1.engine →
        t.shown = (s.hints file).1.shown → Follows (c.add (.drawHints file)) t := by
      intro t hengine hshown
      exact h.add (.drawHints file) hengine (hshown.trans (List.append_nil _).symm)
    split
    next u annotations hu =>
      rw [hu] at hdraws
      exact ⟨[.drawHints file], hdraws _ rfl rfl⟩
    next u hu =>
      rw [hu] at hdraws
      exact ⟨[.drawHints file], hdraws _ rfl rfl⟩
  next => exact ⟨[], h.congr rfl rfl⟩

theorem launch {target : VerificationTarget} {name : Text} (h : Follows c s)
    (hl : Launch id target name s t) : ∃ moves, Follows (c.addAll moves) t := by
  cases hl with
  | @spawned _ invocation pid start engine tasks fresh length shown =>
    exact ⟨[.launch target name invocation pid start],
      h.add (.launch target name invocation pid start) engine shown⟩
  | @refused u engine tasks length shown =>
    have hmove : Follows (c.add (.refuse target name))
        ({ u with engine := (u.engine.conclude u.engine.runCount target name .crash none).1 }.showAll
          (u.engine.conclude u.engine.runCount target name .crash none).2.effects) := by
      refine h.add (.refuse target name) ?_ ?_
      · rw [engine]
        rfl
      · refine (showAll_shown ..).trans ?_
        rw [engine]
        exact (congrArg (· ++ _) shown).trans (List.append_assoc ..)
    obtain ⟨moves, hm⟩ := hmove.conclude id
    exact ⟨.refuse target name :: moves, hm⟩
  | aborted engine tasks length shown =>
    exact ⟨[.abort target name], h.add (.abort target name) engine shown⟩

end Follows

/-- What comes of a notice are moves. -/
theorem Course.follows (h : Runners ns s) (hc : Course n s t) (hf : Follows c s) :
    ∃ moves, Follows (c.addAll moves) t := by
  cases hc with
  | aside ha _ => exact ⟨[], hf.congr ha.engine ha.shown⟩
  | @waits _ _ file =>
    exact ⟨[.awaitNews file], hf.add (.awaitNews file) rfl (List.append_nil _).symm⟩
  | answers => exact hf.answerNews
  | launches => exact hf.launch (launch_spec ..)
  | @reads r stream _ hr hopen =>
    obtain ⟨w, chunks, closed, -, -, -, he, hshown⟩ := readVerifier_spec h hr hopen
    have hplay : s.engine.play (.output r.pid stream chunks closed) =
        ⟨(s.engine.takeOutput r stream chunks closed).1,
          (s.engine.takeOutput r stream chunks closed).2, none⟩ := by
      simp only [Engine.play, h.run?_eq hr, hopen, Bool.false_eq_true, if_false]
    refine ⟨[.output r.pid stream chunks closed], hf.add (.output r.pid stream chunks closed) ?_ ?_⟩
    · rw [hplay, he]
    · rw [hplay, hshown]
  | counts =>
    refine ⟨[], hf.congr ?_ ?_⟩
    · split <;> rfl
    · split <;> rfl
  | awaits => exact ⟨[], hf.congr rfl rfl⟩
  | @finishes r id k code _ hr hk hs =>
    have hplay : s.engine.play (.exit r.pid code s.world.clock) =
        ⟨(s.engine.finish r code s.world.clock).1,
          (s.engine.finish r code s.world.clock).2.effects,
          some (s.engine.finish r code s.world.clock).2.ending⟩ := by
      simp only [Engine.play, h.run?_eq hr]
    have hmove : Follows (c.add (.exit r.pid code s.world.clock))
        ({ s with engine := (s.engine.finish r code s.world.clock).1 }.showAll
          (s.engine.finish r code s.world.clock).2.effects) := by
      refine hf.add (.exit r.pid code s.world.clock) ?_ ?_
      · rw [hplay]
        rfl
      · rw [hplay]
        exact showAll_shown ..
    obtain ⟨moves, hm⟩ := hmove.conclude id
    exact ⟨.exit r.pid code s.world.clock :: moves, hm⟩

/-- **The engine of a session goes through moves**, and what is shown comes of them. -/
theorem Fresh.chronicled (h : s.Fresh) (actions : List Action) :
    ∃ moves, Follows ((Chronicle.start s.engine).addAll moves) (s.after actions) := by
  have hsound : Sound (s.after actions).queue (s.after actions) ∧
      ∃ moves, Follows ((Chronicle.start s.engine).addAll moves) (s.after actions) := by
    apply after_induction (P := fun t => Sound t.queue t ∧
      ∃ moves, Follows ((Chronicle.start s.engine).addAll moves) t)
    · refine ⟨h.sound, [], rfl, ?_⟩
      obtain ⟨_, _, _, _, _, _, _, _, _, rfl⟩ := h
      rfl
    · rintro t a ⟨ht, moves, hf⟩
      refine ⟨ht.act a, ?_⟩
      cases a with
      | ask => exact ⟨moves, hf.congr rfl rfl⟩
      | feed => exact ⟨moves, hf.congr rfl rfl⟩
      | exit => exact ⟨moves, hf.congr rfl rfl⟩
      | step =>
        rcases step_course ht with he | ⟨n, rest, -, hc, hs⟩
        · rw [act, he]
          exact ⟨moves, hf⟩
        · obtain ⟨more, hm⟩ := hc.follows hs.runners (hf.congr rfl rfl)
          refine ⟨moves ++ more, ?_⟩
          rwa [Chronicle.addAll, List.foldl_append]
  exact hsound.2

end VerifierHost.Session
