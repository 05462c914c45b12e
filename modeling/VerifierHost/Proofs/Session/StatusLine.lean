import VerifierHost.Host.Recorder
import VerifierHost.Proofs.Session.Deeds

/-! # What the status line tells

Of each run the status line tells a story: that it began and, unless a later run has begun by then,
how it ended. The stories follow one another in the order of the runs, since nothing is told about
a run after the next one has begun (`Recounts`). So the line describes the latest run, but for runs
that come to an end without a word of it (`status_line_tells_runs`). -/

namespace VerifierHost

def Effect.busy? : Effect → Option Bool
  | .busy isBusy => some isBusy
  | _ => none

def Effect.status? : Effect → Option StatusText
  | .status text => some text
  | _ => none

def Effect.errorNotice? : Effect → Option Text
  | .errorNotice text => some text
  | _ => none

namespace Recorder

theorem statuses_noteAll (effects : List Effect) (r : Recorder) :
    (effects.foldl note r).statuses = r.statuses ++ effects.filterMap Effect.status? := by
  induction effects generalizing r with
  | nil => exact (List.append_nil _).symm
  | cons effect rest ih =>
    rw [List.foldl_cons, ih]
    cases effect with
    | status text => exact List.append_assoc ..
    | busy | errorNotice | diagnostics | clearDiagnostics | decorations | refreshHints => rfl

theorem errors_noteAll (effects : List Effect) (r : Recorder) :
    (effects.foldl note r).errors = r.errors ++ effects.filterMap Effect.errorNotice? := by
  induction effects generalizing r with
  | nil => exact (List.append_nil _).symm
  | cons effect rest ih =>
    rw [List.foldl_cons, ih]
    cases effect with
    | errorNotice text => exact List.append_assoc ..
    | busy | status | diagnostics | clearDiagnostics | decorations | refreshHints => rfl

end Recorder

/-! ## Stories -/

/-- The run that a task began, and how far it has come. -/
structure RunStory where
  task : TaskId
  path : Text
  target : VerificationTarget
  fate : RunFate

/-- The text with which a run is closed. -/
def RunFate.closing? : RunFate → Option StatusText
  | .closed (.ended o) => some o.text
  | _ => none

/-- A run that has ended as a crash. -/
def RunFate.crashed : RunFate → Bool
  | .closed (.ended o) => o.status = .crash
  | _ => false

/-- A run that is over without a word of it. -/
def RunFate.Mute : RunFate → Prop
  | .aborted | .closed (.stuck _) => True
  | _ => False

namespace RunStory

def opening (story : RunStory) : StatusText := .verifying story.target (shownName story.path)

def told (story : RunStory) : List Effect := story.fate.told story.target (shownName story.path)

/-- The texts that a run contributes. -/
def texts (story : RunStory) : List StatusText := story.opening :: story.fate.closing?.toList

/-- The text that describes a run best. -/
def text (story : RunStory) : StatusText := story.fate.closing?.getD story.opening

theorem told_texts (story : RunStory) : story.told.filterMap Effect.status? = story.texts := by
  obtain ⟨task, path, target, fate⟩ := story
  cases fate with
  | runs | aborted => rfl
  | closed ending =>
    cases ending with
    | superseded | stuck => rfl
    | ended o =>
      dsimp only [told, RunFate.told, Ending.told]
      split <;> rfl

theorem told_notices (story : RunStory) :
    story.told.filterMap Effect.errorNotice? =
      if story.fate.crashed then [Text.ofString crashMessage] else [] := by
  obtain ⟨task, path, target, fate⟩ := story
  cases fate with
  | runs | aborted => rfl
  | closed ending =>
    cases ending with
    | superseded | stuck => rfl
    | ended o =>
      dsimp only [told, RunFate.told, Ending.told]
      by_cases hcrash : o.status = .crash
      · have hcrashed : (RunFate.closed (.ended o)).crashed = true := decide_eq_true hcrash
        rw [if_pos hcrash, hcrashed]
        rfl
      · have hcrashed : (RunFate.closed (.ended o)).crashed = false := decide_eq_false hcrash
        rw [if_neg hcrash, hcrashed]
        rfl

/-- Whether the host still looks busy with a run that no later one has superseded. -/
theorem told_busy (story : RunStory) (hlatest : story.fate ≠ .closed .superseded) :
    ∃ isBusy, (story.told.filterMap Effect.busy?).getLast? = some isBusy ∧
      (isBusy = true ↔ story.fate = .runs ∨ story.fate = .aborted) := by
  obtain ⟨task, path, target, fate⟩ := story
  cases fate with
  | runs => exact ⟨true, rfl, by simp⟩
  | aborted => exact ⟨true, rfl, by simp⟩
  | closed ending =>
    refine ⟨false, ?_, by simp⟩
    cases ending with
    | superseded => exact absurd rfl hlatest
    | stuck => rfl
    | ended o =>
      dsimp only [told, RunFate.told, Ending.told]
      split <;> rfl

theorem texts_getLast? (story : RunStory) : story.texts.getLast? = some story.text := by
  unfold texts text
  cases story.fate.closing? <;> rfl

end RunStory

namespace Session

/-- What a host has of all that it was shown. -/
def sink (s : Session) : Recorder := s.shown.foldl Recorder.note .start

/-- Whether the host was last told to look busy. -/
def looksBusy (s : Session) : Bool := (s.shown.filterMap Effect.busy?).getLast?.getD false

variable {s t : Session} {stories : List RunStory} {who : Option TaskId}

/-! ## Nothing is told out of turn -/

/-- The stories of all runs so far, in the order of the runs, are all that was told. -/
structure Recounts (stories : List RunStory) (s : Session) : Prop where
  nodup : (stories.map RunStory.task).Nodup
  count : stories.length = s.engine.runCount
  tasks : ∀ story ∈ stories, ∃ k, s.task? story.task = some k ∧
    k.request.subject? = some (story.path, story.target) ∧ k.Meets story.fate
  runs : ∀ r ∈ s.engine.runs.map ActiveRun.key, ∃ i id k, r.1 = i + 1 ∧
    (stories.map RunStory.task)[i]? = some id ∧ s.task? id = some k ∧ k.standing.runs? = some r.2
  latest : ∀ story, stories.getLast? = some story → story.fate ≠ .closed .superseded
  line : s.statusLine = stories.flatMap RunStory.told

theorem Recounts.start (h : s.Fresh) : Recounts [] s := by
  obtain ⟨_, _, _, _, _, _, _, _, _, rfl⟩ := h
  exact ⟨.nil, rfl, nofun, nofun, nofun, rfl⟩

theorem Task.GoesOn.meets {k k' : Task} {fate : RunFate} (h : k.GoesOn k') (hmeets : k.Meets fate) :
    k'.Meets fate := by
  cases fate with
  | runs => exact (congrArg Option.isSome h.runs).trans hmeets
  | aborted =>
    obtain ⟨fault, hs⟩ := hmeets
    exact ⟨fault, (h.ended (by rw [hs]; trivial)).trans hs⟩
  | closed ending =>
    have hs : k.standing = .ended (k.request.answerTo ending) := hmeets
    show k'.standing = .ended (k'.request.answerTo ending)
    rw [h.ended (by rw [hs]; trivial), hs, h.request]

/-- All runs go on. -/
theorem Recounts.keeps (h : Recounts stories s)
    (htasks : ∀ i k, s.task? i = some k → k.Underway → ∃ k', t.task? i = some k' ∧ k.GoesOn k')
    (hruns : t.engine.runs.map ActiveRun.key = s.engine.runs.map ActiveRun.key)
    (hcount : t.engine.runCount = s.engine.runCount) (hline : t.statusLine = s.statusLine) :
    Recounts stories t := by
  refine ⟨h.nodup, h.count.trans hcount.symm, fun story hstory => ?_, ?_, h.latest,
    hline.trans h.line⟩
  · obtain ⟨k, hk, hsubject, hmeets⟩ := h.tasks story hstory
    obtain ⟨k', hk', hgoes⟩ := htasks _ k hk hmeets.underway
    exact ⟨k', hk', hgoes.request ▸ hsubject, Task.GoesOn.meets hgoes hmeets⟩
  · rw [hruns]
    intro r hr
    obtain ⟨i, id, k, hi, hid, hk, hrun⟩ := h.runs r hr
    obtain ⟨k', hk', hgoes⟩ := htasks id k hk (.inl (Option.isSome_of_mem hrun))
    exact ⟨i, id, k', hi, hid, hk', hgoes.runs.trans hrun⟩

/-- A run begins, whose task has not been told of. -/
theorem Recounts.begins (h : Recounts stories s) {id : TaskId} {k k' : Task} {path : Text}
    {target : VerificationTarget} {fate : RunFate} (hk : s.task? id = some k) (hidle : ¬ k.Underway)
    (hk' : t.task? id = some k') (hsubject : k'.request.subject? = some (path, target))
    (hmeets : k'.Meets fate) (hlatest : fate ≠ .closed .superseded)
    (hothers : ∀ i, i ≠ id → t.task? i = s.task? i)
    (hruns : t.engine.runs.map ActiveRun.key = s.engine.runs.map ActiveRun.key ∨
      ∃ pid, k'.standing.runs? = some pid ∧ t.engine.runs.map ActiveRun.key =
        s.engine.runs.map ActiveRun.key ++ [(t.engine.runCount, pid)])
    (hcount : t.engine.runCount = s.engine.runCount + 1)
    (hline : t.statusLine = s.statusLine ++ fate.told target (shownName path)) :
    Recounts (stories ++ [⟨id, path, target, fate⟩]) t := by
  have hnew : ∀ story ∈ stories, story.task ≠ id := by
    rintro story hstory rfl
    obtain ⟨k₀, hk₀, -, hmeets₀⟩ := h.tasks story hstory
    cases hk.symm.trans hk₀
    exact hidle hmeets₀.underway
  have hold : ∀ r ∈ s.engine.runs.map ActiveRun.key, ∃ i id' k, r.1 = i + 1 ∧
      ((stories ++ [RunStory.mk id path target fate]).map RunStory.task)[i]? = some id' ∧
      t.task? id' = some k ∧ k.standing.runs? = some r.2 := by
    intro r hr
    obtain ⟨i, id', k₀, hi, hid', hk₀, hrun⟩ := h.runs r hr
    obtain ⟨story, hstory, rfl⟩ := List.mem_map.mp (List.mem_of_getElem? hid')
    refine ⟨i, _, k₀, hi, ?_, (hothers _ (hnew story hstory)).trans hk₀, hrun⟩
    rw [List.map_append, List.getElem?_append_left (List.getElem?_eq_some_iff.mp hid').1]
    exact hid'
  refine ⟨?_, ?_, fun story hstory => ?_, fun r hr => ?_, ?_, ?_⟩
  · rw [List.map_append, List.nodup_append]
    refine ⟨h.nodup, List.nodup_singleton _, fun i hi j hj => ?_⟩
    obtain ⟨story, hstory, rfl⟩ := List.mem_map.mp hi
    rw [List.mem_singleton.mp hj]
    exact hnew story hstory
  · rw [List.length_append, h.count, hcount]
    rfl
  · rcases List.mem_append.mp hstory with hstory | hstory
    · obtain ⟨k₀, hk₀, hrest⟩ := h.tasks story hstory
      exact ⟨k₀, (hothers _ (hnew story hstory)).trans hk₀, hrest⟩
    · cases List.mem_singleton.mp hstory
      exact ⟨k', hk', hsubject, hmeets⟩
  · rcases hruns with hsame | ⟨pid, hrun, hmore⟩
    · exact hold r (hsame ▸ hr)
    · rw [hmore] at hr
      rcases List.mem_append.mp hr with hr | hr
      · exact hold r hr
      · obtain rfl := List.mem_singleton.mp hr
        refine ⟨stories.length, id, k', ?_, ?_, hk', hrun⟩
        · rw [hcount, h.count]
        · simp
  · intro story hstory
    rw [List.getLast?_concat] at hstory
    cases hstory
    exact hlatest
  · rw [hline, h.line, List.flatMap_append, List.flatMap_singleton]
    rfl

/-- A run that is not over has a story by its number. -/
theorem Recounts.place (h : Recounts stories s) (hsound : Runners s.queue s) {id : TaskId}
    {k : Task} {r : ActiveRun} (hr : r ∈ s.engine.runs) (hk : s.task? id = some k)
    (hserves : k.standing.runs? = some r.pid) :
    ∃ before story after, stories = before ++ story :: after ∧ r.number = before.length + 1 ∧
      story.task = id ∧ story.fate = .runs ∧
      k.request.subject? = some (story.path, story.target) := by
  obtain ⟨i, id', k₀, hi, hid, hk₀, hrun⟩ := h.runs _ (List.mem_map_of_mem hr)
  obtain rfl : id' = id := hsound.sole id' id k₀ k r.pid hk₀ hk hrun hserves
  rw [List.getElem?_map, Option.map_eq_some_iff] at hid
  obtain ⟨story, hstory, rfl⟩ := hid
  obtain ⟨hlt, hget⟩ := List.getElem?_eq_some_iff.mp hstory
  obtain ⟨k₁, hk₁, hsubject, hmeets⟩ := h.tasks story (List.mem_of_getElem? hstory)
  cases hk.symm.trans hk₁
  refine ⟨stories.take i, story, stories.drop (i + 1), ?_, ?_, rfl, ?_, hsubject⟩
  · rw [← hget, ← List.drop_eq_getElem_cons hlt, List.take_append_drop]
  · rw [List.length_take_of_le (Nat.le_of_lt hlt)]
    exact hi
  · cases hf : story.fate with
    | runs => rfl
    | aborted =>
      rw [hf] at hmeets
      obtain ⟨fault, hs⟩ := hmeets
      rw [hs] at hserves
      cases hserves
    | closed ending =>
      rw [hf] at hmeets
      rw [show k.standing = _ from hmeets] at hserves
      cases hserves

/-- A run ends: the last story gets its end, or one before it gets an end without a word. -/
theorem Recounts.ends (h : Recounts stories s) (hsound : Runners s.queue s) {id : TaskId} {k : Task}
    {r : ActiveRun} {ending : Ending} (hr : r ∈ s.engine.runs) (hk : s.task? id = some k)
    (hserves : k.standing.runs? = some r.pid)
    (hk' : t.task? id = some { k with standing := .ended (k.request.answerTo ending) })
    (hothers : ∀ i, i ≠ id → t.task? i = s.task? i)
    (hruns : t.engine.runs = s.engine.runs.filter fun q => q.pid ≠ r.pid)
    (hcount : t.engine.runCount = s.engine.runCount)
    (hsuperseded : ending = .superseded ↔ r.number ≠ s.engine.runCount)
    (hline : t.statusLine = s.statusLine ++ ending.told) :
    ∃ stories', stories'.map RunStory.task = stories.map RunStory.task ∧ Recounts stories' t := by
  obtain ⟨before, story, after, rfl, hnumber, rfl, hfate, hsubject⟩ := h.place hsound hr hk hserves
  have hsame : (before ++ { story with fate := .closed ending } :: after).map RunStory.task =
      (before ++ story :: after).map RunStory.task := by
    rw [List.map_append, List.map_append]
    rfl
  have hlast : after = [] ↔ r.number = s.engine.runCount := by
    rw [hnumber, ← h.count, List.length_append, List.length_cons]
    constructor
    · rintro rfl
      rfl
    · intro he
      exact List.length_eq_zero_iff.mp (by omega)
  have hne : ∀ story' ∈ before ++ after, story'.task ≠ story.task := by
    intro story' hstory' he
    have hnodup := h.nodup
    rw [List.map_append, List.map_cons, List.nodup_middle, ← List.map_append,
      List.nodup_cons] at hnodup
    exact hnodup.1 (he ▸ List.mem_map_of_mem hstory')
  refine ⟨_, hsame, hsame ▸ h.nodup, ?_, fun story' hstory' => ?_, fun q hq => ?_, ?_, ?_⟩
  · rw [hcount, ← h.count, List.length_append, List.length_append]
    rfl
  · rcases List.perm_middle.mem_iff.mp hstory' with _ | ⟨_, hold⟩
    · exact ⟨_, hk', hsubject, rfl⟩
    · obtain ⟨k', hk', hrest⟩ :=
        h.tasks story' (List.perm_middle.mem_iff.mpr (List.mem_cons_of_mem _ hold))
      exact ⟨k', (hothers _ (hne story' hold)).trans hk', hrest⟩
  · rw [hruns] at hq
    obtain ⟨q, hmem, rfl⟩ := List.mem_map.mp hq
    obtain ⟨hmem, hpid⟩ := List.mem_filter.mp hmem
    obtain ⟨j, id, k', hj, hid, hk', hrun⟩ := h.runs _ (List.mem_map_of_mem hmem)
    refine ⟨j, id, k', hj, hsame ▸ hid, (hothers id ?_).trans hk', hrun⟩
    rintro rfl
    cases hk.symm.trans hk'
    exact of_decide_eq_true hpid (Option.some.inj (hrun.symm.trans hserves))
  · intro story' hstory'
    rw [List.getLast?_append, List.getLast?_cons] at hstory'
    cases hafter : after.getLast? with
    | some last =>
      rw [hafter] at hstory'
      cases hstory'
      refine h.latest last ?_
      rw [List.getLast?_append, List.getLast?_cons, hafter]
      rfl
    | none =>
      rw [hafter] at hstory'
      cases hstory'
      intro he
      exact hsuperseded.mp (RunFate.closed.inj he) (hlast.mp (List.getLast?_eq_none_iff.mp hafter))
  · have htold : story.told = beginningTold story.target (shownName story.path) := by
      rw [RunStory.told, hfate]
      rfl
    rw [hline, h.line, List.flatMap_append, List.flatMap_append, List.flatMap_cons,
      List.flatMap_cons, htold]
    by_cases hends : r.number = s.engine.runCount
    · rw [hlast.mpr hends]
      simp [RunStory.told, RunFate.told]
    · rw [hsuperseded.mpr hends]
      simp [RunStory.told, RunFate.told, Ending.told]

/-- Whatever happens to runs, all that is told remains their stories in the order of the runs. -/
theorem Deed.recounts (hd : Deed s t who) (h : Recounts stories s) (hsound : Runners s.queue s) :
    ∃ stories', stories'.map RunStory.task = stories.map RunStory.task ++ who.toList ∧
      Recounts stories' t := by
  cases hd with
  | keeps tasks runs count line =>
    exact ⟨stories, (List.append_nil _).symm, h.keeps tasks runs count line⟩
  | begins task idle task' subject meets latest others runs count line =>
    refine ⟨_, ?_, h.begins task idle task' subject meets latest others runs count line⟩
    rw [List.map_append]
    rfl
  | ends run task serves task' others runs count superseded line =>
    obtain ⟨stories', hsame, hrecounts⟩ :=
      h.ends hsound run task serves task' others runs count superseded line
    exact ⟨stories', hsame.trans (List.append_nil _).symm, hrecounts⟩

/-- After every history all that was told are the stories of the runs. -/
theorem recounts_after (h : s.Fresh) (actions : List Action) :
    ∃ stories, stories.map RunStory.task = s.starters actions ∧
      Recounts stories (s.after actions) := by
  induction actions using List.reverseRecOn with
  | nil => exact ⟨[], rfl, .start h⟩
  | append_singleton before a ih =>
    obtain ⟨stories, hsame, hrecounts⟩ := ih
    have hsound := h.sound_after before
    obtain ⟨stories', hsame', hrecounts'⟩ :=
      (act_deed hsound a).recounts hrecounts hsound.runners
    refine ⟨stories', ?_, after_concat s before a ▸ hrecounts'⟩
    rw [hsame', hsame, starters_append]
    exact congrArg _ (List.append_nil _).symm

/-! ## What a host makes of it -/

theorem filterMap_statusLine {α : Type} (f : Effect → Option α)
    (hf : ∀ effect, effect.onStatusLine = false → f effect = none) (s : Session) :
    s.shown.filterMap f = s.statusLine.filterMap f := by
  unfold statusLine
  induction s.shown with
  | nil => rfl
  | cons effect rest ih =>
    cases hline : effect.onStatusLine with
    | false =>
      rw [List.filter_cons_of_neg (by rw [hline]; exact Bool.false_ne_true),
        List.filterMap_cons_none (hf effect hline), ih]
    | true =>
      rw [List.filter_cons_of_pos hline, List.filterMap_cons, List.filterMap_cons, ih]

theorem told_notices_flatMap (stories : List RunStory) :
    (stories.flatMap fun story => story.told.filterMap Effect.errorNotice?) =
      List.replicate (stories.countP fun story => story.fate.crashed)
        (Text.ofString crashMessage) := by
  induction stories with
  | nil => rfl
  | cons story rest ih =>
    rw [List.flatMap_cons, ih, story.told_notices]
    cases hcrash : story.fate.crashed with
    | false => rw [List.countP_cons, hcrash]; rfl
    | true => rw [List.countP_cons, hcrash]; exact List.replicate_succ.symm

/-- A host that shows the stories of runs. -/
structure Shows (s : Session) (stories : List RunStory) : Prop where
  statuses : s.sink.statuses = stories.flatMap RunStory.texts
  errors : s.sink.errors =
    List.replicate (stories.countP fun story => story.fate.crashed) (Text.ofString crashMessage)
  text : ∀ latest, stories.getLast? = some latest → s.sink.status? = some latest.text
  busy : ∀ latest, stories.getLast? = some latest →
    (s.looksBusy = true ↔ latest.fate = .runs ∨ latest.fate = .aborted)

theorem Recounts.shows (h : Recounts stories s) : Shows s stories := by
  have hstatuses : s.sink.statuses = stories.flatMap RunStory.texts := by
    rw [sink, Recorder.statuses_noteAll,
      filterMap_statusLine Effect.status? (by rintro (_ | _) h <;> first | rfl | cases h), h.line,
      List.filterMap_flatMap]
    exact congrArg (List.flatMap · stories) (funext RunStory.told_texts)
  refine ⟨hstatuses, ?_, fun latest hlatest => ?_, fun latest hlatest => ?_⟩
  · rw [sink, Recorder.errors_noteAll,
      filterMap_statusLine Effect.errorNotice? (by rintro (_ | _) h <;> first | rfl | cases h),
      h.line, List.filterMap_flatMap]
    exact told_notices_flatMap stories
  all_goals obtain ⟨earlier, rfl⟩ := List.getLast?_eq_some_iff.mp hlatest
  · rw [Recorder.status?, hstatuses, List.flatMap_append, List.flatMap_singleton,
      List.getLast?_append, latest.texts_getLast?]
    rfl
  · obtain ⟨isBusy, hlast, hiff⟩ := latest.told_busy (h.latest latest hlatest)
    rw [looksBusy, filterMap_statusLine Effect.busy? (by rintro (_ | _) h <;> first | rfl | cases h),
      h.line, List.flatMap_append, List.flatMap_singleton, List.filterMap_append,
      List.getLast?_append, hlast]
    exact hiff

/-- The status line describes the latest run: the host looks busy as long as it goes on, and the
text is that of its beginning until it is over and then the one it is closed with. A run that is
over has contributed both texts, unless a later one had begun before. -/
structure Describes (s : Session) (stories : List RunStory) : Prop where
  busy : ∀ latest, stories.getLast? = some latest → (s.looksBusy = true ↔ latest.fate = .runs)
  opens : ∀ latest, stories.getLast? = some latest → latest.fate = .runs →
    s.sink.status? = some latest.opening
  closes : ∀ latest, stories.getLast? = some latest → latest.fate ≠ .runs →
    ∃ o, latest.fate = .closed (.ended o) ∧ s.sink.status? = some o.text
  overtaken : ∀ story ∈ stories, story.fate = .closed .superseded → story.texts.length = 1
  finished : ∀ story ∈ stories, story.fate ≠ .runs → story.fate ≠ .closed .superseded →
    story.texts.length = 2

/-- The line describes the latest run exactly if no run came to an end without a word of it. -/
theorem Recounts.describes_iff (h : Recounts stories s) :
    Describes s stories ↔ ∀ story ∈ stories, ¬ story.fate.Mute := by
  have hshows := h.shows
  constructor
  · intro hd story hstory hmute
    have htexts := hd.finished story hstory
    obtain ⟨task, path, target, fate⟩ := story
    cases fate with
    | runs => cases hmute
    | aborted => cases htexts nofun nofun
    | closed ending =>
      cases ending with
      | stuck => cases htexts nofun nofun
      | superseded | ended => cases hmute
  · intro hword
    have hlatest : ∀ latest, stories.getLast? = some latest →
        latest.fate = .runs ∨ ∃ o, latest.fate = .closed (.ended o) := by
      intro latest hlast
      have hmute := hword latest (List.mem_of_getLast? hlast)
      cases hf : latest.fate with
      | runs => exact .inl rfl
      | aborted => exact absurd (hf ▸ trivial) hmute
      | closed ending =>
        cases ending with
        | stuck => exact absurd (hf ▸ trivial) hmute
        | superseded => exact absurd hf (h.latest latest hlast)
        | ended o => exact .inr ⟨o, rfl⟩
    refine ⟨fun latest hlast => ?_, fun latest hlast hruns => ?_, fun latest hlast hover => ?_,
      fun story _ hover => ?_, fun story hstory hover hlast => ?_⟩
    · rw [hshows.busy latest hlast, or_iff_left]
      rintro ha
      rcases hlatest latest hlast with hf | ⟨o, hf⟩ <;> rw [hf] at ha <;> cases ha
    · rw [hshows.text latest hlast, RunStory.text, hruns]
      rfl
    · obtain ⟨o, hf⟩ := (hlatest latest hlast).resolve_left hover
      refine ⟨o, hf, ?_⟩
      rw [hshows.text latest hlast, RunStory.text, hf]
      rfl
    · rw [RunStory.texts, hover]
      rfl
    · have hmute := hword story hstory
      cases hf : story.fate with
      | runs => exact absurd hf hover
      | aborted => exact absurd (hf ▸ trivial) hmute
      | closed ending =>
        cases ending with
        | stuck => exact absurd (hf ▸ trivial) hmute
        | superseded => exact absurd hf hlast
        | ended o =>
          rw [RunStory.texts, hf]
          rfl

/-- **What the status line tells.** After every history, all that was told are the stories of the
runs in the order they began: a text for the beginning of each and one for the end of each that
ended while it was the latest, and a notice for each of these that crashed. The host looks busy
with the latest run and shows the text of it; so the line describes the latest run exactly if no
run came to an end without a word of it. A run that goes on in a settled session has a verifier
that is alive. -/
theorem status_line_tells_runs (h : s.Fresh) (actions : List Action) :
    let t := s.after actions
    ∃ stories, stories.map RunStory.task = s.starters actions ∧ Recounts stories t ∧
      Shows t stories ∧
      (Describes t stories ↔ ∀ story ∈ stories, ¬ story.fate.Mute) ∧
      (t.queue = [] → ∀ story ∈ stories, story.fate = .runs →
        ∃ k pid, t.task? story.task = some k ∧ k.standing.runs? = some pid ∧
          ¬ t.world.HasEnded pid) := by
  intro t
  obtain ⟨stories, hsame, hrecounts⟩ := recounts_after h actions
  refine ⟨stories, hsame, hrecounts, hrecounts.shows, hrecounts.describes_iff,
    fun hq story hstory hruns => ?_⟩
  obtain ⟨k, hk, -, hmeets⟩ := hrecounts.tasks story hstory
  rw [hruns] at hmeets
  obtain ⟨pid, hrun⟩ := Option.isSome_iff_exists.mp hmeets
  have hrunners := (h.sound_after actions).runners
  obtain ⟨r, hr, rfl⟩ := List.mem_map.mp (hrunners.tasks story.task k pid hk hrun).2
  obtain ⟨i, k', hk', hprogress⟩ := hrunners.running r hr
  rw [show (s.after actions).queue = [] from hq] at hprogress
  exact ⟨k, r.pid, hk, hrun, hprogress.alive hrunners.sane⟩

/-! A run of a crate whose path has a name of 256 letters. -/

def longPath : Text := ⟨.char '/' :: List.replicate 256 (.char 'n')⟩

def longNamed : List Action := [.ask (.run longPath .crate "here"), .step]

theorem status_line_longNamed :
    (quiet.after longNamed).queue = [] ∧ (quiet.after longNamed).looksBusy = true ∧
      ∃ stories, stories.map RunStory.task = [0] ∧ Recounts stories (quiet.after longNamed) ∧
        ¬ Describes (quiet.after longNamed) stories := by
  obtain ⟨stories, hsame, hrecounts, -, -, halive⟩ := status_line_tells_runs fresh_quiet longNamed
  have hstarters : quiet.starters longNamed = [0] := by decide +kernel
  have hqueue : (quiet.after longNamed).queue = [] := by decide +kernel
  have hbusy : (quiet.after longNamed).looksBusy = true := by decide +kernel
  have hidle : ((quiet.after longNamed).task? 0).bind (·.standing.runs?) = none := by
    decide +kernel
  rw [hstarters] at hsame
  refine ⟨hqueue, hbusy, stories, hsame, hrecounts, fun hd => ?_⟩
  obtain ⟨story, rfl, htask⟩ := List.map_eq_singleton_iff.mp hsame
  obtain ⟨k, pid, hk, hrun, -⟩ :=
    halive hqueue story List.mem_cons_self ((hd.busy story rfl).mp hbusy)
  rw [htask] at hk
  rw [hk] at hidle
  exact Option.some_ne_none pid (hrun.symm.trans hidle)

end Session

end VerifierHost
