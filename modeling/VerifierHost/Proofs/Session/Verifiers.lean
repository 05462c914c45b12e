import VerifierHost.Proofs.Session.Handling

/-! # Outdated verifiers are told to die

A run that begins kills every verifier that still runs, and a verifier that runs no longer has
ended (`Session.act_muster`). So whoever outlives the run it belongs to was killed by the run that
came next, and a verifier is not killed once it is no longer waited for. -/

namespace VerifierHost.Session

variable {s t : Session} {a : Action} {pid : Pid} {kills starts V : List Pid}

/-- The processes that an action kills. -/
def killsBy (s : Session) (a : Action) : List Pid := (s.act a).killed.drop s.killed.length

/-- The verifiers that an action starts, which is what begins a run. -/
def verifiersBy (s : Session) (a : Action) : List Pid :=
  if (s.starter a).isSome then (s.act a).spawned.drop s.spawned.length else []

/-- The verifiers that were started in a history. -/
def verifiers (s : Session) : List Action → List Pid
  | [] => []
  | a :: rest => s.verifiersBy a ++ (s.act a).verifiers rest

theorem verifiers_append (s : Session) (before later : List Action) :
    s.verifiers (before ++ later) = s.verifiers before ++ (s.after before).verifiers later := by
  induction before generalizing s with
  | nil => rfl
  | cons a rest ih =>
    rw [List.cons_append, verifiers, ih, verifiers, List.append_assoc]
    rfl

theorem Handles.killsBy (h : Handles kills starts s (s.act a)) : s.killsBy a = kills := by
  rw [Session.killsBy, h.killed, List.drop_left]

/-! ## One action -/

/-- What an action does to the verifiers that run: those of the runs before are killed and another
one may run, or they go on and none is killed. -/
inductive Muster (s t : Session) (killed started : List Pid) : Prop
  | begins (count : t.engine.runCount = s.engine.runCount + 1) (kills : killed = s.engine.pids)
      (pids : t.engine.pids = s.engine.pids ++ started)
      (fresh : ∀ pid ∈ started,
        s.world.processes.length < pid ∧ pid ≤ t.world.processes.length)
  | goesOn (count : t.engine.runCount = s.engine.runCount)
      (kills : ∀ pid ∈ killed, s.server.supervisor.held = some pid) (none : started = [])
      (pids : t.engine.pids.Sublist s.engine.pids)
      (runs : ∀ pid ∈ s.engine.pids, pid ∈ t.engine.pids ∨ s.world.HasEnded pid)

/-- **What an action does to the verifiers that run.** -/
theorem act_muster (h : Sound s.queue s) (hg : s.server.supervisor.Guarded) (a : Action) :
    Muster s (s.act a) (s.killsBy a) (s.verifiersBy a) := by
  have hcount := (act_deed h a).runCount
  have hnone : (s.act a).engine.runCount = s.engine.runCount → s.verifiersBy a = [] := fun he => by
    rw [verifiersBy, hcount.mp he]
    rfl
  cases act_toll hg a with
  | sustains sustains =>
    rw [hnone sustains.count, sustains.handles.killsBy]
    exact .goesOn sustains.count nofun rfl sustains.pids sustains.runs
  | manages handles engine =>
    rw [hnone (congrArg _ engine), handles.killsBy]
    refine .goesOn (congrArg _ engine) (fun pid hp => Option.mem_toList.mp hp) rfl ?_
      fun pid hp => .inl ?_
    · rw [engine]
    · rwa [engine]
  | @launches starts handles count pids =>
    have hstarter : (s.starter a).isSome := by
      rw [Option.isSome_iff_ne_none]
      exact fun he => Nat.succ_ne_self _ (count.symm.trans (hcount.mpr he))
    rw [handles.killsBy, verifiersBy, if_pos hstarter, handles.spawned, List.drop_left]
    exact .begins count rfl pids fun pid hp => (handles.fresh pid).mp hp

/-! ## The verifiers so far -/

/-- The verifiers that were started are known, and each of them runs or has ended. -/
structure Mustered (V : List Pid) (s : Session) : Prop where
  nodup : V.Nodup
  known : ∀ pid ∈ V, pid ≤ s.world.processes.length
  apart : ∀ pid ∈ V, ¬ s.Serves pid
  present : ∀ pid ∈ s.engine.pids, pid ∈ V
  gone : ∀ pid ∈ V, pid ∉ s.engine.pids → s.world.HasEnded pid

theorem Course.serves {n : Notice} {ns : List Notice} (h : Runners ns s) (hc : Course n s t)
    (hserves : t.Serves pid) : s.Serves pid ∨ s.world.processes.length < pid := by
  have hsame : t.server = s.server → s.Serves pid ∨ s.world.processes.length < pid := by
    intro he
    rw [Serves, he] at hserves
    exact .inl hserves
  cases hc with
  | aside ha => exact (ha.serves pid hserves).imp_right And.left
  | waits | awaits => exact hsame rfl
  | answers => exact hsame (Apart.answerNews s _).server
  | launches => exact hsame (Apart.launch h _ _ _ _).server
  | reads _ hr => exact hsame (Apart.readVerifier h hr _).server
  | counts =>
    refine hsame ?_
    split <;> rfl
  | finishes => exact hsame (Apart.finishRun s _ _ _).server

/-- The server comes to hold and to read no process but one that was just started. -/
theorem act_serves (h : Sound s.queue s) (a : Action) (hserves : (s.act a).Serves pid) :
    s.Serves pid ∨ s.world.processes.length < pid := by
  cases a with
  | ask | feed | exit => exact .inl hserves
  | step =>
    rcases step_course h with he | ⟨n, rest, -, hcourse, htaken⟩
    · rw [act, he] at hserves
      exact .inl hserves
    · exact Course.serves (s := { s with queue := rest }) htaken.runners hcourse hserves

/-- **Verifiers are accounted for** whatever happens. -/
theorem Mustered.act (hm : Mustered V s) (h : Sound s.queue s) (hg : s.server.supervisor.Guarded)
    (a : Action) : Mustered (V ++ s.verifiersBy a) (s.act a) := by
  have hages := (act_toll hg a).ages
  have hended : ∀ pid, s.world.HasEnded pid → (s.act a).world.HasEnded pid :=
    hages.ended h.runners.sane
  have hapart : ∀ pid ∈ V, ¬ (s.act a).Serves pid := fun pid hp hserves =>
    (act_serves h a hserves).elim (hm.apart pid hp) (Nat.not_lt_of_le (hm.known pid hp))
  cases act_muster h hg a with
  | begins count kills pids fresh =>
    have hruns : ∀ pid ∈ s.verifiersBy a, pid ∈ (s.act a).engine.pids := fun pid hp =>
      pids ▸ List.mem_append_right _ hp
    have hnodup := (h.act a).runners.pids
    refine ⟨?_, fun pid hp => ?_, fun pid hp => ?_, fun pid hp => ?_, fun pid hp hnot => ?_⟩
    · rw [pids] at hnodup
      refine List.nodup_append.mpr ⟨hm.nodup, hnodup.of_append_right, ?_⟩
      rintro pid hp _ hq rfl
      exact Nat.not_lt_of_le (hm.known pid hp) (fresh pid hq).1
    · rcases List.mem_append.mp hp with hp | hp
      · exact Nat.le_trans (hm.known pid hp) hages.length
      · exact (fresh pid hp).2
    · rcases List.mem_append.mp hp with hp | hp
      · exact hapart pid hp
      · obtain ⟨r, hr, rfl⟩ := List.mem_map.mp (hruns pid hp)
        exact (h.act a).runners.apart r hr
    · rw [pids] at hp
      exact List.mem_append.mpr ((List.mem_append.mp hp).imp_left (hm.present pid))
    · rcases List.mem_append.mp hp with hp | hp
      · exact hended pid (hm.gone pid hp fun hold => hnot (pids ▸ List.mem_append_left _ hold))
      · exact absurd (hruns pid hp) hnot
  | goesOn count kills none pids runs =>
    rw [none, List.append_nil]
    refine ⟨hm.nodup, fun pid hp => Nat.le_trans (hm.known pid hp) hages.length, hapart,
      fun pid hp => hm.present pid (pids.subset hp), fun pid hp hnot => hended pid ?_⟩
    by_cases hold : pid ∈ s.engine.pids
    · exact (runs pid hold).resolve_left hnot
    · exact hm.gone pid hp hold

/-- A verifier runs as long as its task waits for it. -/
theorem mem_pids_iff {ns : List Notice} (h : Runners ns s) :
    pid ∈ s.engine.pids ↔ (s.taskOfRun? pid).isSome := by
  constructor
  · intro hp
    obtain ⟨r, hr, rfl⟩ := List.mem_map.mp hp
    obtain ⟨id, k, hk, hprogress⟩ := h.running r hr
    rw [Option.isSome_iff_ne_none]
    exact fun hnone => taskOfRun?_none hnone hk hprogress.runs?
  · intro hp
    obtain ⟨id, hid⟩ := Option.isSome_iff_exists.mp hp
    obtain ⟨k, hk, hrun⟩ := taskOfRun?_some hid
    exact (h.tasks id k pid hk hrun).2

/-- As many runs are in progress as verifiers are waited for. -/
theorem Mustered.inProgress {ns : List Notice} (hm : Mustered V s) (h : Runners ns s) :
    s.engine.inProgress = (V.filter fun pid => (s.taskOfRun? pid).isSome).length := by
  have hperm : s.engine.pids.Perm (V.filter fun pid => (s.taskOfRun? pid).isSome) := by
    refine (List.perm_ext_iff_of_nodup h.pids (hm.nodup.filter _)).mpr fun pid => ?_
    rw [List.mem_filter, ← mem_pids_iff h]
    exact ⟨fun hp => ⟨hm.present pid hp, hp⟩, And.right⟩
  rw [← hperm.length_eq, Engine.pids, List.length_map]
  rfl

/-! ## Histories -/

namespace Fresh

variable (h : s.Fresh)

include h

theorem mustered (actions : List Action) : Mustered (s.verifiers actions) (s.after actions) := by
  induction actions using List.reverseRecOn with
  | nil =>
    obtain ⟨_, _, _, _, _, _, _, _, _, rfl⟩ := h
    exact ⟨.nil, nofun, nofun, nofun, nofun⟩
  | append_singleton before a ih =>
    rw [after_concat, verifiers_append, verifiers, verifiers, List.append_nil]
    exact ih.act (h.sound_after before) (h.guarded_after before) a

theorem ages (before later : List Action) :
    World.Ages (s.after before).world ((s.after before).after later).world := by
  induction later using List.reverseRecOn with
  | nil => exact .refl _
  | append_singleton later a ih =>
    rw [after_concat]
    have hg := h.guarded_after (before ++ later)
    rw [after_append] at hg
    exact ih.trans (act_toll hg a).ages

/-- A verifier has a number that no process had before it. -/
theorem lt_of_mem_verifiers (before later : List Action)
    (hp : pid ∈ (s.after before).verifiers later) :
    (s.after before).world.processes.length < pid := by
  induction later using List.reverseRecOn with
  | nil => cases hp
  | append_singleton later a ih =>
    rw [verifiers_append, verifiers, verifiers, List.append_nil, ← after_append] at hp
    refine (List.mem_append.mp hp).elim ih fun hp => ?_
    have hs := h.sound_after (before ++ later)
    have hlength := (h.ages before later).length
    rw [← after_append] at hlength
    cases act_muster hs (h.guarded_after (before ++ later)) a with
    | begins _ _ _ fresh => exact Nat.lt_of_le_of_lt hlength (fresh pid hp).1
    | goesOn _ _ none =>
      rw [none] at hp
      cases hp

/-- The next run kills whoever is going to survive it. -/
theorem killed_by_next (before later : List Action) {V : List Pid}
    (hm : Mustered V (s.after before)) (hp : pid ∈ V)
    (halive : ¬ ((s.after before).after later).world.HasEnded pid)
    (hcount : ((s.after before).after later).engine.runCount ≠ (s.after before).engine.runCount) :
    ∃ middle b rest, later = middle ++ b :: rest ∧
      ((s.after before).after middle).engine.runCount = (s.after before).engine.runCount ∧
      (((s.after before).after middle).act b).engine.runCount =
        (s.after before).engine.runCount + 1 ∧
      pid ∈ ((s.after before).after middle).killsBy b := by
  induction later generalizing before V with
  | nil => exact absurd rfl hcount
  | cons b rest ih =>
    have hs := h.sound_after before
    have hg := h.guarded_after before
    have hnow : (s.after before).act b = s.after (before ++ [b]) := (after_concat ..).symm
    cases act_muster hs hg b with
    | begins count kills =>
      refine ⟨[], b, rest, rfl, rfl, count, ?_⟩
      show pid ∈ (s.after before).killsBy b
      rw [kills]
      by_contra hnot
      exact halive ((h.ages before (b :: rest)).ended hs.runners.sane pid (hm.gone pid hp hnot))
    | goesOn count =>
      have hrest : (s.after before).after (b :: rest) = (s.after (before ++ [b])).after rest := by
        rw [← hnow]
        rfl
      rw [hrest] at halive hcount
      have hsame : (s.after (before ++ [b])).engine.runCount = (s.after before).engine.runCount :=
        hnow ▸ count
      obtain ⟨middle, c, rest, rfl, hstill, hnext, hkilled⟩ := ih (before ++ [b])
        (hnow ▸ hm.act hs hg b) (List.mem_append_left _ hp) halive (hsame ▸ hcount)
      have hmiddle : (s.after before).after (b :: middle) =
          (s.after (before ++ [b])).after middle := by
        rw [← hnow]
        rfl
      refine ⟨b :: middle, c, rest, rfl, ?_⟩
      rw [hmiddle, ← hsame]
      exact ⟨hstill, hnext, hkilled⟩

end Fresh

/-- **Outdated verifiers are told to die.** After every history, a verifier that is alive though a
run has begun after its own was killed by the first run that did. No verifier is killed unless its
task waits for it, before the kill and still after it. And as many runs are in progress as verifiers
were started that are waited for. -/
theorem outdated_verifiers_killed (h : s.Fresh) (actions : List Action) :
    (∀ before a later pid, actions = before ++ a :: later →
      pid ∈ (s.after before).verifiersBy a → ¬ (s.after actions).world.HasEnded pid →
      (s.after actions).engine.runCount ≠ (s.after (before ++ [a])).engine.runCount →
      ∃ middle b rest, later = middle ++ b :: rest ∧
        (s.after (before ++ a :: middle)).engine.runCount =
          (s.after (before ++ [a])).engine.runCount ∧
        (s.after (before ++ a :: middle ++ [b])).engine.runCount =
          (s.after (before ++ [a])).engine.runCount + 1 ∧
        pid ∈ (s.after (before ++ a :: middle)).killsBy b) ∧
    (∀ before a later pid, actions = before ++ a :: later → pid ∈ s.verifiers actions →
      pid ∈ (s.after before).killsBy a → ((s.after before).taskOfRun? pid).isSome ∧
        ((s.after (before ++ [a])).taskOfRun? pid).isSome) ∧
    (s.verifiers actions).Nodup ∧
    (s.after actions).engine.inProgress =
      ((s.verifiers actions).filter fun pid => ((s.after actions).taskOfRun? pid).isSome).length := by
  refine ⟨?_, ?_, (h.mustered actions).nodup,
    (h.mustered actions).inProgress (h.sound_after actions).runners⟩
  · rintro before a later pid rfl hp halive hcount
    have hsplit : ∀ rest, s.after (before ++ a :: rest) = (s.after (before ++ [a])).after rest :=
      fun rest => by rw [← after_append, List.append_assoc]; rfl
    have hmem : pid ∈ s.verifiers (before ++ [a]) := by
      rw [verifiers_append]
      exact List.mem_append_right _ (List.mem_append_left _ hp)
    rw [hsplit] at halive hcount
    obtain ⟨middle, b, rest, rfl, hstill, hnext, hkilled⟩ :=
      h.killed_by_next (before ++ [a]) later (h.mustered _) hmem halive hcount
    refine ⟨middle, b, rest, rfl, ?_⟩
    rw [after_concat s (before ++ a :: middle), hsplit middle]
    exact ⟨hstill, hnext, hkilled⟩
  · rintro before a later pid rfl hp hkilled
    have hs := h.sound_after before
    rw [after_concat, ← mem_pids_iff hs.runners, ← mem_pids_iff (hs.act a).runners]
    cases act_muster hs (h.guarded_after before) a with
    | begins count kills pids =>
      rw [kills] at hkilled
      exact ⟨hkilled, pids ▸ List.mem_append_left _ hkilled⟩
    | goesOn count kills =>
      -- what is held is no verifier that was started, and none that will be
      have hheld : (s.after before).Serves pid := .inl (kills pid hkilled)
      rw [verifiers_append] at hp
      rcases List.mem_append.mp hp with hp | hp
      · exact absurd hheld ((h.mustered before).apart pid hp)
      · exact absurd (hs.runners.served pid hheld)
          (Nat.not_le_of_lt (h.lt_of_mem_verifiers before _ hp))

/-! Two verifiers run at once, and the first one survives its kill. -/

def overlapping : List Action :=
  [.ask (.verify "/w/a.rs" .file (some "here")), .step, .step, .step,
    .ask (.verify "/w/b.rs" .file (some "here")), .step, .step, .step]

theorem outdated_verifiers_killed_overlapping : quiet.Fresh ∧
    (quiet.after overlapping).queue = [] ∧
    overlapping = overlapping.take 1 ++ .step :: overlapping.drop 2 ∧
    1 ∈ (quiet.after (overlapping.take 1)).verifiersBy .step ∧
    ¬ (quiet.after overlapping).world.HasEnded 1 ∧
    (quiet.after overlapping).engine.runCount ≠
      (quiet.after (overlapping.take 1 ++ [.step])).engine.runCount ∧
    (∃ middle b rest, overlapping.drop 2 = middle ++ b :: rest ∧
      (quiet.after (overlapping.take 1 ++ .step :: middle)).engine.runCount = 1 ∧
      1 ∈ (quiet.after (overlapping.take 1 ++ .step :: middle)).killsBy b) ∧
    1 ∈ quiet.verifiers overlapping ∧ 1 ∈ (quiet.after (overlapping.take 5)).killsBy .step ∧
    ((quiet.after (overlapping.take 5 ++ [.step])).taskOfRun? 1).isSome ∧
    ((quiet.verifiers overlapping).filter fun pid =>
      ((quiet.after overlapping).taskOfRun? pid).isSome).length = 2 := by
  obtain ⟨hqueue, hstarted, hexit, hcount, hfirst, hmem, hkilled, hprogress⟩ :
      (quiet.after overlapping).queue = [] ∧
      1 ∈ (quiet.after (overlapping.take 1)).verifiersBy .step ∧
      ((quiet.after overlapping).world.process? 1).bind Process.exit = none ∧
      (quiet.after overlapping).engine.runCount ≠
        (quiet.after (overlapping.take 1 ++ [.step])).engine.runCount ∧
      (quiet.after (overlapping.take 1 ++ [.step])).engine.runCount = 1 ∧
      1 ∈ quiet.verifiers overlapping ∧ 1 ∈ (quiet.after (overlapping.take 5)).killsBy .step ∧
      (quiet.after overlapping).engine.inProgress = 2 := by decide +kernel
  have halive : ¬ (quiet.after overlapping).world.HasEnded 1 := by
    rintro ⟨p, code, hp, hcode⟩
    rw [hp, Option.bind_some, hcode] at hexit
    cases hexit
  obtain ⟨hkills, hwaited, -, hwaiting⟩ := outdated_verifiers_killed fresh_quiet overlapping
  obtain ⟨middle, b, rest, hlater, hstill, -, hdies⟩ := hkills _ _ _ 1 rfl hstarted halive hcount
  exact ⟨fresh_quiet, hqueue, rfl, hstarted, halive, hcount,
    ⟨middle, b, rest, hlater, hstill.trans hfirst, hdies⟩, hmem, hkilled,
    (hwaited (overlapping.take 5) .step _ 1 rfl hmem hkilled).2, hwaiting.symm.trans hprogress⟩

end VerifierHost.Session
