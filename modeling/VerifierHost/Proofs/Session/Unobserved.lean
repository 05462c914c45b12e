import VerifierHost.Proofs.Session.Superseded
import VerifierHost.Proofs.Session.Upkeep

/-! # Sessions where nobody looks at what is known

As long as nobody asks for what is known about a file, and runs are asked for by themselves, a step
of the session is a step of one run, or it is about the server (`react_advance`). So nothing but
runs changes what the engine knows, and a run is finished with the code that its process has ended
with. -/

namespace VerifierHost

/-- A task that does not look at what is known. What it runs was asked for by itself, and if it asks
for news it has ended or waits for some that have not come. -/
structure Task.Quiet (u : Updates) (k : Task) : Prop where
  runs : k.standing.runs?.isSome → ∃ path target address, k.request = .run path target address
  asks : k.request.AsksNews → k.standing.IsEnded ∨
    ∃ w, k.standing = .awaitingNews w ∧ u.book.status? w = some .pending

theorem Task.Aloof.quiet {k : Task} (h : k.Aloof) (u : Updates) : k.Quiet u := by
  refine ⟨fun hr => ?_, fun ha => .inl (h.resolve_right fun ho => ho.2 ha)⟩
  rw [h.runs?_eq_none] at hr
  cases hr

/-- What is done from outside where nobody asks for what is known. -/
def Action.AsksNoNews : Action → Prop
  | .ask request => ¬ request.AsksNews
  | .feed .. | .exit .. | .step => True

instance : DecidablePred Action.AsksNoNews
  | .ask request => inferInstanceAs (Decidable (¬ request.AsksNews))
  | .feed .. | .exit .. | .step => .isTrue trivial

/-- A request that looks at what is known, now or when its run is over. -/
def Request.Looks : Request → Prop
  | .verify .. | .hover .. | .hints _ | .news _ => True
  | .answered _ | .run .. | .ensureReady | .waitUntilReady | .startServer | .supervise ..
  | .startup => False

instance : DecidablePred Request.Looks
  | .verify .. | .hover .. | .hints _ | .news _ => .isTrue trivial
  | .answered _ | .run .. | .ensureReady | .waitUntilReady | .startServer | .supervise ..
  | .startup => .isFalse not_false

namespace Session

/-- Nobody looks at what is known. -/
structure Unobserved (notices : List Notice) (s : Session) : Prop where
  sound : Sound notices s
  quiet : ∀ id k, s.task? id = some k → k.Quiet s.engine.updates

/-- What a notice can lead to where nobody looks at what is known. -/
inductive Advance (n : Notice) (s : Session) : Session → Prop
  | keeps {t : Session} (upkeep : Upkeep s t) : Advance n s t
  | launches {id path target address} : Advance n s (s.launch id path target address)
  | reads {r stream} (notice : n = .wake (.output r.pid stream)) (run : r ∈ s.engine.runs)
      (opened : (r.tap stream).ended = false) : Advance n s (s.readVerifier r stream)
  | counts {id k pid m} (notice : n = .streamEnded pid) (task : s.task? id = some k)
      (standing : k.standing = .awaitingOutput pid m) :
      Advance n s (if m = 0 then s.setStanding id (.awaitingOutput pid 1)
        else (s.setStanding id (.awaitingOutput pid (m + 1))).enqueue [.outputEnded pid])
  | awaits {r id k} (notice : n = .wake (.exit r.pid) ∨ n = .outputEnded r.pid)
      (run : r ∈ s.engine.runs) (task : s.task? id = some k)
      (standing : k.standing.runs? = some r.pid) :
      Advance n s
        ({ s with world := (s.world.awaitExit r.pid).1 }.setStanding id (.awaitingExit r.pid))
  | finishes {r id k code} (notice : n = .wake (.exit r.pid) ∨ n = .outputEnded r.pid)
      (run : r ∈ s.engine.runs) (task : s.task? id = some k)
      (standing : k.standing.runs? = some r.pid)
      (exited : (s.world.process? r.pid).bind Process.exit = some code) :
      Advance n s (s.finishRun id r code)

variable {s t : Session} {n : Notice} {ns notices : List Notice}
  {id : TaskId} {k : Task} {pid : Pid}

/-! ## What a notice leads to -/

theorem useServer_advance (hk : s.task? id = some k)
    (hf : k.standing = .queued ∨ k.standing.OnServer) (answer : Answer) :
    Advance n s (s.useServer id answer) := by
  unfold useServer
  split
  next => exact .launches
  next =>
    split
    next => exact .keeps (.endTask hk hf _)
    next => exact .keeps (.endTask hk hf _)
  next => exact .keeps (.endTask hk hf _)

theorem requireServer_advance (hk : s.task? id = some k) (hq : k.standing = .queued)
    (ha : ¬ k.request.AsksNews) : Advance n s (s.requireServer id) := by
  unfold requireServer
  split
  next => exact useServer_advance hk (.inl hq) _
  next =>
    refine .keeps ((Upkeep.joinStartup s).trans ?_)
    exact .setStanding (Deals.joinStartup_task? hk) (.inl hq) (.inr ⟨trivial, ha⟩)

/-- A task that begins does not ask for news. -/
theorem begin_advance (h : Unobserved ns s) (id : TaskId) :
    Advance (.begin id) s (s.begin id) := by
  unfold begin
  split
  next request hk =>
    have hq : (Task.mk request .queued).standing = .queued := rfl
    have hasks : ¬ request.AsksNews := by
      intro ha
      rcases (h.quiet id _ hk).asks ha with he | ⟨w, hw, -⟩
      · exact he
      · cases hw
    split
    next => exact .keeps (.endTask hk (.inl hq) _)
    next =>
      split
      next =>
        split
        next =>
          split
          · exact requireServer_advance hk hq not_false
          · exact .launches
        next => exact requireServer_advance hk hq not_false
      next => exact .keeps (.endTask hk (.inl hq) _)
    next => exact .launches
    next => exact absurd trivial hasks
    next => exact absurd trivial hasks
    next => exact requireServer_advance hk hq not_false
    next => exact .keeps (.awaitPhase hk (.inl hq) not_false)
    next =>
      exact .keeps (.endStart (.startServer s) ((startServer_task? s id).trans hk) (.inl hq))
    next =>
      exact .keeps (.endStart (.superviseCall s ..) ((superviseCall_task? s ..).trans hk) (.inl hq))
    next =>
      have hstart := Upkeep.startServer s
      have htasks := (startServer_task? s id).trans hk
      split
      next u hu =>
        rw [hu] at hstart htasks
        exact .keeps (hstart.trans (.awaitPhase htasks (.inl hq) not_false))
      next u why hu =>
        rw [hu] at hstart htasks
        exact .keeps (hstart.trans (.endTask htasks (.inl hq) _))
    next => exact absurd trivial hasks
  next => exact .keeps (.refl s)

/-- A task that goes on does not go on because of news. -/
theorem resume_advance (h : Unobserved (.resume id :: ns) s) :
    Advance (.resume id) s (s.resume id) := by
  obtain ⟨k, hk, -, hreleased⟩ := h.sound.waiters.resumes id List.mem_cons_self
  unfold resume
  rw [hk]
  dsimp only [Option.map_some]
  cases hs : k.standing with
  | awaitingNews w =>
    obtain ⟨hasks, -⟩ := h.sound.waiters.waiting id k w hk hs
    rcases (h.quiet id k hk).asks hasks with he | ⟨w', hw, hpending⟩
    · rw [hs] at he
      cases he
    · cases hs.symm.trans hw
      cases hpending.symm.trans (hreleased w hs)
  | phaseCame ready crashed => exact .keeps (.concludePhase hk (.inr (hs ▸ trivial)))
  | startupCame answer => exact useServer_advance hk (.inr (hs ▸ trivial)) answer
  | _ => exact .keeps (.refl s)

theorem read_advance (s : Session) (pid : Pid) (stream : Stream) :
    Advance (.wake (.output pid stream)) s (s.read pid stream) := by
  unfold read
  split
  next r hr =>
    obtain ⟨hmem, rfl⟩ := mem_runs_of_run? hr
    cases hopen : (r.tap stream).ended with
    | false => exact .reads rfl hmem hopen
    | true =>
      rw [show s.readVerifier r stream = s by rw [readVerifier, hopen, if_pos rfl]]
      exact .keeps (.refl s)
  next r hr hreader => exact .keeps (.readServer (List.mem_of_find?_eq_some hreader))
  next => exact .keeps (.refl s)

theorem streamEnded_advance (s : Session) (pid : Pid) :
    Advance (.streamEnded pid) s (s.streamEnded pid) := by
  unfold streamEnded
  cases ht : s.taskOfRun? pid with
  | none => exact .keeps (.refl s)
  | some id =>
    obtain ⟨k, hk, hrun⟩ := taskOfRun?_some ht
    dsimp only
    rw [hk]
    dsimp only [Option.map_some]
    cases hs : k.standing with
    | awaitingOutput p m =>
      rw [hs] at hrun
      cases hrun
      have hcounts := Advance.counts (n := .streamEnded pid) rfl hk hs
      cases m with
      | zero => exact hcounts
      | succ m => exact hcounts
    | _ => exact .keeps (.refl s)

/-- The code of a process that has ended. -/
theorem exit_of_awaitExit {w w' : World} {code : ExitCode}
    (h : w.awaitExit pid = (w', some code)) :
    (w.process? pid).bind Process.exit = some code := by
  unfold World.awaitExit at h
  split at h
  next => cases h
  next p hp =>
    split at h
    next he =>
      cases h
      rw [hp]
      exact he
    next => cases h

theorem awaitExit_advance (h : Unobserved ns s) (pid : Pid)
    (hn : n = .wake (.exit pid) ∨ n = .outputEnded pid) : Advance n s (s.awaitExit pid) := by
  cases hr : s.engine.run? pid with
  | none => exact .keeps (.awaitExit (not_mem_pids_of_run? hr))
  | some r =>
    obtain ⟨hmem, rfl⟩ := mem_runs_of_run? hr
    cases ht : s.taskOfRun? r.pid with
    | none =>
      obtain ⟨id, k, hk, hprogress⟩ := h.sound.runners.running r hmem
      exact absurd hprogress.runs? (taskOfRun?_none ht hk)
    | some id =>
      obtain ⟨k, hk, hrun⟩ := taskOfRun?_some ht
      unfold awaitExit
      rw [hr, ht]
      cases hw : s.world.awaitExit r.pid with
      | mk w code =>
        cases code with
        | some code => exact .finishes hn hmem hk hrun (exit_of_awaitExit hw)
        | none =>
          have hawaits := Advance.awaits hn hmem hk hrun
          rwa [hw] at hawaits

/-- **What a notice leads to** where nobody looks at what is known. -/
theorem react_advance (h : Unobserved (n :: ns) s) : Advance n s (s.react n) := by
  cases n with
  | begin id => exact begin_advance h id
  | wake wake =>
    cases wake with
    | output pid stream => exact read_advance s pid stream
    | exit pid => exact awaitExit_advance h pid (.inl rfl)
  | streamEnded pid => exact streamEnded_advance s pid
  | outputEnded pid => exact awaitExit_advance h pid (.inr rfl)
  | phaseEnded id => exact .keeps (.phaseEnded h.sound.waiters id)
  | startupEnded id => exact .keeps (.startupEnded h.sound.waiters id)
  | resume id => exact resume_advance h

/-! ## What stays unobserved -/

/-- What is done about the server leaves tasks quiet. -/
theorem Upkeep.quiet (h : Upkeep s t)
    (hquiet : ∀ id k, s.task? id = some k → k.Quiet s.engine.updates) :
    ∀ id k, t.task? id = some k → k.Quiet t.engine.updates := by
  intro i k hk
  rw [h.engine]
  cases hs : s.task? i with
  | some k' =>
    obtain ⟨k'', hk'', hp⟩ := h.old i k' hs
    cases hk.symm.trans hk''
    rcases hp with rfl | ⟨-, -, ha⟩
    · exact hquiet i k hs
    · exact ha.quiet _
  | none =>
    rcases h.new i k hs hk with ⟨hqueued, -⟩ | ha
    · refine ⟨fun hr => ?_, fun ha => ?_⟩
      · rw [hqueued] at hr
        cases hr
      · rw [h.recruits i k hs hk] at ha
        cases ha
    · exact ha.quiet _

/-- A task that runs a verifier goes on with it or ends. -/
theorem quiet_setStanding {u : Updates} {standing : Standing}
    (h : ∀ id k, s.task? id = some k → k.Quiet u) (hk : s.task? id = some k)
    (hrun : k.standing.runs?.isSome)
    (htasks : t.tasks = (s.setStanding id standing).tasks) :
    ∀ i k, t.task? i = some k → k.Quiet u := by
  intro i k' hk'
  rcases task?_setStanding_cases htasks hk' with ⟨k₀, hk₀, rfl, rfl⟩ | ⟨-, hk'⟩
  · cases hk.symm.trans hk₀
    obtain ⟨path, target, address, hr⟩ := (h i k hk).runs hrun
    refine ⟨fun _ => ⟨path, target, address, hr⟩, fun ha => ?_⟩
    rw [show k.request = _ from hr] at ha
    cases ha
  · exact h i k' hk'

/-- A launch begins a run. -/
theorem Launch.runCount {target : VerificationTarget} {name : Text}
    (h : Launch id target name s t) : t.engine.runCount = s.engine.runCount + 1 := by
  cases h with
  | spawned engine => rw [engine]; rfl
  | @refused u engine =>
    obtain ⟨updates, hu, -⟩ := u.engine.conclude_spec u.engine.runCount target name .crash none
    obtain ⟨-, -, -, -, hcount, -⟩ := conclude_same
      { u with engine := (u.engine.conclude u.engine.runCount target name .crash none).1 } id
      (u.engine.conclude u.engine.runCount target name .crash none).2
    rw [hcount, hu, engine]
    rfl
  | @aborted u _ engine =>
    show u.engine.runCount = _
    rw [engine]
    rfl

/-- As long as no run begins and nobody is released, nobody looks at what is known. -/
theorem Advance.unobserved (ha : Advance n s t) (h : Unobserved (n :: s.queue) s)
    (hsound : Sound t.queue t) (hcount : t.engine.runCount = s.engine.runCount)
    (hupdates : t.engine.updates = s.engine.updates) : Unobserved t.queue t := by
  refine ⟨hsound, ?_⟩
  cases ha with
  | keeps hu => exact hu.quiet h.quiet
  | launches => exact absurd ((launch_spec ..).runCount.symm.trans hcount) (Nat.succ_ne_self _)
  | @reads r stream _ hr hopen =>
    obtain ⟨_, _, _, -, -, htasks, -⟩ := readVerifier_spec h.sound.runners hr hopen
    rw [hupdates]
    exact fun i k hk => h.quiet i k ((task?_congr htasks i).symm.trans hk)
  | @counts id k pid m _ hk hs =>
    rw [hupdates]
    exact quiet_setStanding h.quiet hk (by rw [hs]; rfl) (s.counts_tasks id pid m)
  | awaits _ _ hk hs => exact quiet_setStanding h.quiet hk (by rw [hs]; rfl) rfl
  | @finishes r id k code _ _ hk hs =>
    obtain ⟨-, -, -, -, answer, htasks⟩ := s.finishRun_same id r code
    rw [hupdates]
    exact quiet_setStanding h.quiet hk (by rw [hs]; rfl) htasks

/-! ## From outside -/

/-- Nobody who comes asks for what is known. -/
theorem Unobserved.act (h : Unobserved s.queue s) {a : Action} (ha : a.AsksNoNews)
    (hstep : a ≠ .step) : Unobserved (s.act a).queue (s.act a) := by
  refine ⟨h.sound.act a, ?_⟩
  cases a with
  | ask request =>
    intro i k hk
    rcases task?_added_cases rfl hk with hk | ⟨-, rfl⟩
    · exact h.quiet i k hk
    · exact ⟨nofun, fun hasks => absurd hasks ha⟩
  | feed | exit => exact h.quiet
  | step => exact absurd rfl hstep

/-- Nobody looks at what is known where nobody ever asked to. -/
theorem Sound.unobserved (h : Sound notices s) (hrequests : ∀ k ∈ s.tasks, ¬ k.request.Looks) :
    Unobserved notices s := by
  refine ⟨h, fun i k hk => ⟨fun hr => ?_, fun ha => ?_⟩⟩
  all_goals
    have hlooks := hrequests k (List.mem_of_getElem? hk)
    obtain ⟨request, standing⟩ := k
  · obtain ⟨pid, hrun⟩ := Option.isSome_iff_exists.mp hr
    obtain ⟨hverifies, -⟩ := h.runners.tasks i _ pid hk hrun
    cases request with
    | run path target address => exact ⟨path, target, address, rfl⟩
    | verify => exact absurd trivial hlooks
    | _ => cases hverifies
  · cases request with
    | hover | hints | news => exact absurd trivial hlooks
    | _ => cases ha

/-- The first notice is taken from the queue. -/
theorem Unobserved.take (h : Unobserved s.queue s) {rest : List Notice} (hq : s.queue = n :: rest) :
    Unobserved (n :: rest) { s with queue := rest } := by
  rw [hq] at h
  exact ⟨h.sound.congr rfl rfl rfl rfl, h.quiet⟩

end Session

end VerifierHost
