import VerifierHost.Proofs.Session.Sound

/-! # What a notice brings about

`react_course` says all that a notice can lead to in a session that is sound: something beside the
runs, or one of seven steps of a run or of a request for news. What is to be shown of every step is
shown of these. -/

namespace VerifierHost

/-- A notice that nobody needs any more, once what came of it is done. -/
def Notice.Spent (s t : Session) : Notice → Prop
  | .begin id => ∀ k, t.task? id = some k → k.standing ≠ .queued
  | .resume id => ∀ k w, t.task? id = some k → k.standing ≠ .awaitingNews w
  | .wake (.output pid stream) =>
    ∀ r ∈ s.engine.runs, r.pid = pid → (r.tap stream).ended = true
  | .wake (.exit pid) | .outputEnded pid => pid ∉ s.engine.pids
  | .streamEnded pid => ∀ id k n, t.task? id = some k → k.standing ≠ .awaitingOutput pid n
  | .phaseEnded _ | .startupEnded _ => True

namespace Session

/-- What can come of a notice. -/
inductive Course (n : Notice) (s : Session) : Session → Prop
  | aside {t} (aside : Aside s t) (spent : n.Spent s t) : Course n s t
  | waits {id k file} (notice : n = .begin id) (task : s.task? id = some k)
      (queued : k.standing = .queued) (asks : k.request.AsksNews)
      (busy : s.expectsNews ∨ k.request = .news file) : Course n s (s.awaitNews id file)
  | answers {id k} (task : s.task? id = some k) (asks : k.request.AsksNews)
      (notice : n = .begin id ∧ k.standing = .queued ∨ n = .resume id ∧
        ∃ w, k.standing = .awaitingNews w ∧ s.engine.updates.book.status? w = some .released) :
      Course n s (s.answerNews id)
  | launches {id k path target address} (task : s.task? id = some k)
      (verifies : k.request.Verifies)
      (notice : n = .begin id ∧ k.standing = .queued ∨
        n = .resume id ∧ ∃ a, k.standing = .startupCame a) :
      Course n s (s.launch id path target address)
  | reads {r stream} (notice : n = .wake (.output r.pid stream)) (run : r ∈ s.engine.runs)
      (opened : (r.tap stream).ended = false) : Course n s (s.readVerifier r stream)
  | counts {id k pid m} (notice : n = .streamEnded pid) (task : s.task? id = some k)
      (standing : k.standing = .awaitingOutput pid m) :
      Course n s (if m = 0 then s.setStanding id (.awaitingOutput pid 1)
        else (s.setStanding id (.awaitingOutput pid (m + 1))).enqueue [.outputEnded pid])
  | awaits {r id k w} (notice : n = .wake (.exit r.pid) ∨ n = .outputEnded r.pid)
      (run : r ∈ s.engine.runs) (task : s.task? id = some k)
      (standing : k.standing.runs? = some r.pid) (alive : s.world.awaitExit r.pid = (w, none)) :
      Course n s ({ s with world := w }.setStanding id (.awaitingExit r.pid))
  | finishes {r id k code} (notice : n = .wake (.exit r.pid) ∨ n = .outputEnded r.pid)
      (run : r ∈ s.engine.runs) (task : s.task? id = some k)
      (standing : k.standing.runs? = some r.pid) : Course n s (s.finishRun id r code)

variable {s : Session} {notices : List Notice} {id : TaskId} {k : Task} {pid : Pid}

/-! ## Notices about tasks -/

theorem Course.of_begin {t : Session} (h : Deals id s t) : Course (.begin id) s t :=
  .aside h.toAside fun k hk => (h.aloof k hk).ne_queued

theorem Course.of_resume {t : Session} (h : Deals id s t) : Course (.resume id) s t :=
  .aside h.toAside fun k w hk => (h.aloof k hk).ne_awaitingNews w

theorem useServer_course {answer : Answer} {n : Notice} (hk : s.task? id = some k)
    (hf : k.standing = .queued ∨ k.standing.OnServer)
    (hn : n = .begin id ∧ k.standing = .queued ∨
      n = .resume id ∧ ∃ a, k.standing = .startupCame a) :
    Course n s (s.useServer id answer) := by
  have hdeals : ∀ answer, Course n s (s.endTask id answer) := by
    intro answer
    rcases hn with ⟨rfl, -⟩ | ⟨rfl, -⟩
    · exact .of_begin (Deals.endTask hk hf)
    · exact .of_resume (Deals.endTask hk hf)
  unfold useServer
  split
  next ht =>
    cases hk.symm.trans ht
    exact .launches hk trivial hn
  next =>
    split
    · exact hdeals _
    · exact hdeals _
  next => exact hdeals _

theorem requireServer_course (hk : s.task? id = some k) (hq : k.standing = .queued)
    (ha : ¬ k.request.AsksNews) : Course (.begin id) s (s.requireServer id) := by
  unfold requireServer
  split
  next => exact useServer_course hk (.inl hq) (.inl ⟨rfl, hq⟩)
  next =>
    refine .of_begin (.after (Deals.joinStartup s) ?_)
    exact Deals.setStanding (Deals.joinStartup_task? hk) (.inl hq) (.inr ⟨trivial, ha⟩)

/-- A task that begins is dealt with, waits, is answered, or starts a verifier. -/
theorem begin_course (s : Session) (id : TaskId) : Course (.begin id) s (s.begin id) := by
  unfold begin
  split
  next request hk =>
    have hq : (Task.mk request .queued).standing = .queued := rfl
    split
    next => exact .of_begin (Deals.endTask hk (.inl hq))
    next =>
      split
      next =>
        split
        next =>
          split
          · exact requireServer_course hk hq not_false
          · exact .launches hk trivial (.inl ⟨rfl, hq⟩)
        next => exact requireServer_course hk hq not_false
      next => exact .of_begin (Deals.endTask hk (.inl hq))
    next => exact .launches hk trivial (.inl ⟨rfl, hq⟩)
    next =>
      split
      next hb => exact .waits rfl hk hq trivial (.inl hb)
      next => exact .answers hk trivial (.inl ⟨rfl, hq⟩)
    next =>
      split
      next hb => exact .waits rfl hk hq trivial (.inl hb)
      next => exact .answers hk trivial (.inl ⟨rfl, hq⟩)
    next => exact requireServer_course hk hq not_false
    next => exact .of_begin (Deals.awaitPhase hk (.inl hq) not_false)
    next =>
      exact .of_begin (Deals.endStart (Aside.startServer s) ((startServer_task? s id).trans hk)
        (.inl hq))
    next =>
      exact .of_begin (Deals.endStart (Aside.superviseCall s ..)
        ((superviseCall_task? s ..).trans hk) (.inl hq))
    next =>
      have hstart := Aside.startServer s
      have htasks := (startServer_task? s id).trans hk
      split
      next u hu =>
        rw [hu] at hstart htasks
        exact .of_begin (.after hstart (Deals.awaitPhase htasks (.inl hq) not_false))
      next u why hu =>
        rw [hu] at hstart htasks
        exact .of_begin (.after hstart (Deals.endTask htasks (.inl hq)))
    next => exact .waits rfl hk hq trivial (.inr rfl)
  next hno =>
    refine .aside (.refl s) fun k hk hq => ?_
    obtain ⟨request, standing⟩ := k
    cases hq
    exact hno request hk

/-- A task that goes on is answered, goes on with the server, or starts a verifier. -/
theorem resume_course (h : Waiters (.resume id :: notices) s) :
    Course (.resume id) s (s.resume id) := by
  obtain ⟨k, hk, -, hreleased⟩ := h.resumes id List.mem_cons_self
  unfold resume
  rw [hk]
  dsimp only [Option.map_some]
  cases hs : k.standing with
  | awaitingNews w =>
    have hstatus := hreleased w hs
    dsimp only
    unfold concludeNews
    rw [hstatus]
    exact .answers hk (h.waiting id k w hk hs).1 (.inr ⟨rfl, w, hs, hstatus⟩)
  | phaseCame ready crashed =>
    exact .of_resume (Deals.concludePhase hk (.inr (hs ▸ trivial)))
  | startupCame answer =>
    exact useServer_course hk (.inr (hs ▸ trivial)) (.inr ⟨rfl, answer, hs⟩)
  | _ =>
    refine .aside (.refl s) fun k' w hk' hw => ?_
    cases hk.symm.trans hk'
    cases hs.symm.trans hw

/-- A task that waited for the server is about to go on. -/
theorem resumes_later (hk : s.task? id = some k) (hf : k.standing.OnServer)
    (ha : ¬ k.request.AsksNews) {standing : Standing} (ho : standing.OnServer) :
    Aside s ((s.setStanding id standing).enqueue [.resume id]) := by
  have hset : Deals id s (s.setStanding id standing) :=
    Deals.setStanding hk (.inr hf) (.inr ⟨ho, ha⟩)
  refine hset.trans (.enqueue _ ?_)
  intro n hn
  rw [List.mem_singleton.mp hn]
  have htask : (s.setStanding id standing).task? id = some { k with standing } := by
    rw [setStanding_task?, if_pos rfl, hk]
    rfl
  exact ⟨_, htask, hset.aloof _ htask⟩

theorem phaseEnded_course (h : Waiters notices s) (id : TaskId) :
    Course (.phaseEnded id) s (s.phaseEnded id) := by
  unfold phaseEnded
  cases hk : s.task? id with
  | none => exact .aside (.refl s) trivial
  | some k =>
    dsimp only [Option.map_some]
    cases hs : k.standing with
    | awaitingPhase ready crashed =>
      have hon : k.standing.OnServer := hs ▸ trivial
      exact .aside (resumes_later hk hon (h.aloof id k hk hon) trivial) trivial
    | _ => exact .aside (.refl s) trivial

theorem startupEnded_course (h : Waiters notices s) (id : TaskId) :
    Course (.startupEnded id) s (s.startupEnded id) := by
  unfold startupEnded
  cases hk : s.task? id with
  | none => exact .aside (.refl s) trivial
  | some k =>
    dsimp only [Option.map_some]
    cases hs : k.standing with
    | awaitingStartup startup =>
      have hon : k.standing.OnServer := hs ▸ trivial
      dsimp only
      split
      next => exact .aside (resumes_later hk hon (h.aloof id k hk hon) trivial) trivial
      next => exact .aside (.refl s) trivial
    | _ => exact .aside (.refl s) trivial

/-! ## Notices about processes -/

/-- What the server's stream brings. -/
theorem collect_aside (s : Session) {r : StreamReader} (hr : r ∈ s.server.supervisor.readers) :
    let (world, chunks, closed) := s.world.collect r.pid r.stream
    let (r', lines, ended) := r.read chunks closed
    let (server, waits) := s.server.takeLines r.lineUse lines
    let server := { server with supervisor := server.supervisor.putReader r' ended }
    Aside s ({ s with world, server }.noticePhases waits) := by
  have hworld : Aside s { s with world := (s.world.collect r.pid r.stream).1 } :=
    .touch (World.touches_collect ..) (.inl (.inr ⟨r, hr, rfl⟩))
  refine (hworld.withServer ?_).trans (.noticePhases _ _)
  have hlines := SharedServer.takeLines_supervisor s.server r.lineUse
  rintro pid (hp | ⟨q, hq, rfl⟩)
  · exact .inl (.inl ((hlines _).1 ▸ hp))
  · refine .inl (.inr ?_)
    rcases Supervisor.mem_putReader hq with hq | rfl
    · exact ⟨q, (hlines _).2 ▸ hq, rfl⟩
    · exact ⟨r, hr, rfl⟩

/-- The reader of the server's stream is no run's. -/
theorem readServer_aside (s : Session) {r : StreamReader}
    (hr : r ∈ s.server.supervisor.readers) : Aside s (s.readServer r) := by
  have hread := collect_aside s hr
  unfold readServer
  dsimp only at hread ⊢
  split
  next =>
    refine hread.trans (.record _ ?_)
    rw [List.filterMap_map]
    exact List.filterMap_eq_nil_iff.mpr fun _ _ => rfl
  next => exact hread
  next => exact hread

theorem read_course (s : Session) (pid : Pid) (stream : Stream) (h : Runners notices s) :
    Course (.wake (.output pid stream)) s (s.read pid stream) := by
  unfold read
  split
  next r hr =>
    obtain ⟨hmem, rfl⟩ := mem_runs_of_run? hr
    cases hopen : (r.tap stream).ended with
    | false => exact .reads rfl hmem hopen
    | true =>
      have hstay : s.readVerifier r stream = s := by rw [readVerifier, hopen, if_pos rfl]
      rw [hstay]
      refine .aside (.refl s) fun q hq he => ?_
      rwa [h.eq_of_pid hq hmem he]
  next r hr hreader =>
    refine .aside (readServer_aside s (List.mem_of_find?_eq_some hreader)) fun q hq he => ?_
    exact absurd (he ▸ List.mem_map_of_mem hq) (not_mem_pids_of_run? hr)
  next hr _ =>
    refine .aside (.refl s) fun q hq he => ?_
    exact absurd (he ▸ List.mem_map_of_mem hq) (not_mem_pids_of_run? hr)

theorem streamEnded_course (h : Runners notices s) (pid : Pid) :
    Course (.streamEnded pid) s (s.streamEnded pid) := by
  unfold streamEnded
  cases ht : s.taskOfRun? pid with
  | none =>
    refine .aside (.refl s) fun id k n hk hs => ?_
    exact taskOfRun?_none ht hk (by rw [hs]; rfl)
  | some id =>
    obtain ⟨k, hk, hrun⟩ := taskOfRun?_some ht
    dsimp only
    rw [hk]
    dsimp only [Option.map_some]
    cases hs : k.standing with
    | awaitingOutput p m =>
      have hp : p = pid := by simpa [hs, Standing.runs?] using hrun
      subst hp
      have hcounts := Course.counts (n := .streamEnded p) rfl hk hs
      cases m with
      | zero => exact hcounts
      | succ m => exact hcounts
    | awaitingExit p =>
      refine .aside (.refl s) fun i k' n hk' hs' => ?_
      have hi := h.sole i id k' k pid hk' hk (by rw [hs']; rfl) hrun
      subst hi
      cases hk.symm.trans hk'
      cases hs.symm.trans hs'
    | _ => rw [hs] at hrun; cases hrun

/-- A process whose exit was awaited ends its run, if it was a run's and has ended. -/
theorem awaitExit_course (h : Runners notices s) (pid : Pid) {n : Notice}
    (hn : n = .wake (.exit pid) ∨ n = .outputEnded pid) : Course n s (s.awaitExit pid) := by
  have hspent : ∀ t : Session, pid ∉ s.engine.pids → n.Spent s t := by
    intro t hp
    rcases hn with rfl | rfl
    · exact hp
    · exact hp
  cases hr : s.engine.run? pid with
  | some r =>
    obtain ⟨hmem, rfl⟩ := mem_runs_of_run? hr
    cases ht : s.taskOfRun? r.pid with
    | none =>
      obtain ⟨id, k, hk, hprog⟩ := h.running r hmem
      exact absurd hprog.runs? (taskOfRun?_none ht hk)
    | some id =>
      obtain ⟨k, hk, hrun⟩ := taskOfRun?_some ht
      unfold awaitExit
      rw [hr, ht]
      cases hw : s.world.awaitExit r.pid with
      | mk w code =>
        cases code with
        | some code => exact .finishes hn hmem hk hrun
        | none => exact .awaits hn hmem hk hrun hw
  | none =>
    have hp := not_mem_pids_of_run? hr
    have htouch := World.touches_awaitExit s.world pid
    unfold awaitExit
    rw [hr]
    cases hw : s.world.awaitExit pid with
    | mk w code =>
      rw [hw] at htouch
      cases code with
      | none => exact .aside (.touch htouch (.inr hp)) (hspent _ hp)
      | some code =>
        dsimp only
        cases he : s.server.supervisor.processEnded pid with
        | error e => exact .aside (.refl s) (hspent _ hp)
        | ok result =>
          obtain ⟨supervisor, ended⟩ := result
          obtain ⟨hheld, hreaders⟩ := Supervisor.processEnded_ok he
          refine .aside (.setSupervisor hheld fun r hr => ?_) (hspent _ hp)
          rwa [hreaders] at hr

/-- **What a notice brings about** in a session that is sound. -/
theorem react_course {n : Notice} (h : Sound (n :: notices) s) : Course n s (s.react n) := by
  cases n with
  | begin id => exact begin_course s id
  | wake wake =>
    cases wake with
    | output pid stream => exact read_course s pid stream h.runners
    | exit pid => exact awaitExit_course h.runners pid (.inl rfl)
  | streamEnded pid => exact streamEnded_course h.runners pid
  | outputEnded pid => exact awaitExit_course h.runners pid (.inr rfl)
  | phaseEnded id => exact phaseEnded_course h.waiters id
  | startupEnded id => exact startupEnded_course h.waiters id
  | resume id => exact resume_course h.waiters

end Session

end VerifierHost
