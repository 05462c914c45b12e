import Mathlib.Data.List.Nodup
import VerifierHost.Host.Recorder
import VerifierHost.Proofs.Run.Completion
import VerifierHost.Proofs.Run.Decorations
import VerifierHost.Proofs.Run.Endings

/-! # What is shown of a run that completes

A recorder keeps for each URI what was set for it last. A store has a row for each spelling of a
path, so two of its files with one URI hide each other and only the later one is shown. Since every
row holds a diagnostic and every diagnostic has a severity, something is missing from the counts as
soon as that happens. -/

namespace VerifierHost

open Wire

/-! ## Stores -/

/-- Each file has one row, no row is empty and every diagnostic has a severity. -/
structure Store.Tidy (s : Store) : Prop where
  files : s.files.Nodup
  rows : ∀ row ∈ s.entries, row.2 ≠ []
  severities : ∀ row ∈ s.entries, ∀ d ∈ row.2, d.severity.isSome

namespace Store

theorem Tidy.empty (errorsOnly : Bool) : (Store.empty errorsOnly).Tidy :=
  ⟨List.nodup_nil, fun _ hm => absurd hm List.not_mem_nil, fun _ hm => absurd hm List.not_mem_nil⟩

theorem mem_entries_of_mem_diagnosticsOf {s : Store} {file : Text} {d : Diagnostic}
    (h : d ∈ s.diagnosticsOf file) : ∃ row ∈ s.entries, row.1 = file ∧ d ∈ row.2 := by
  unfold diagnosticsOf at h
  cases hg : s.entries.get? file with
  | none => simp [hg] at h
  | some ds => exact ⟨(file, ds), Table.mem_of_get? hg, rfl, by simpa [hg] using h⟩

theorem Tidy.diagnosticsOf_eq {s : Store} (h : s.Tidy) {row : Text × List Diagnostic}
    (hrow : row ∈ s.entries) : s.diagnosticsOf row.1 = row.2 := by
  rw [diagnosticsOf, Table.get?_of_mem h.files hrow]
  rfl

theorem Tidy.add {s : Store} (h : s.Tidy) {l : Located} (hl : l.diagnostic.severity.isSome) :
    (s.add l).Tidy := by
  unfold Store.add
  split
  next =>
    refine ⟨Table.nodup_keys_put h.files _ _, ?_, ?_⟩
    · intro row hrow
      rcases Table.mem_put hrow with rfl | hrow
      · simp
      · exact h.rows row hrow
    · intro row hrow d hd
      rcases Table.mem_put hrow with rfl | hrow
      · rcases List.mem_append.mp hd with hd | hd
        · obtain ⟨r, hr, -, hd⟩ := mem_entries_of_mem_diagnosticsOf hd
          exact h.severities r hr d hd
        · rw [List.mem_singleton.mp hd]
          exact hl
      · exact h.severities row hrow d hd
  next => exact h

end Store

theorem severity_locate {directory : FilePath} {o : Origin} {m : Message} {l : Located}
    (h : m.locate directory o = .ok l) : l.diagnostic.severity.isSome := by
  cases m with
  | mk message code level spans children =>
    unfold Message.locate at h
    split at h
    · cases h
    · split at h
      · cases h
      · split at h
        · cases h
        · rw [← Except.ok.inj h]
          rfl

/-! ## Lines and moves -/

/-- The diagnostic on a line, if there is one that has a place. -/
def located? (directory : FilePath) (o : Origin) (line : Text) : Option Located :=
  match parseLine o line with
  | .ok (some (m, o')) =>
    match EventKind.ofText? m.message with
    | some _ => none
    | none => (m.locate directory o').toOption
  | _ => none

theorem severity_located? {directory : FilePath} {o : Origin} {line : Text} {l : Located}
    (h : located? directory o line = some l) : l.diagnostic.severity.isSome := by
  unfold located? at h
  split at h
  next m o' _ =>
    split at h
    next => cases h
    next =>
      cases hm : m.locate directory o' with
      | error e => simp [hm, Except.toOption] at h
      | ok located =>
        simp only [hm, Except.toOption, Option.some.injEq] at h
        exact h ▸ severity_locate hm
  next => cases h


namespace Board

theorem store_annotateAll (files : List Text) (b : Board) :
    (files.foldl Board.annotate b).store = b.store := by
  induction files generalizing b with
  | nil => rfl
  | cons file rest ih => exact ih (b.annotate file)

/-- Events are no diagnostics. -/
theorem store_readEvent (b : Board) (o : Origin) (kind : EventKind) (text : Text)
    (spans : List Span) : (b.readEvent o kind text spans).store = b.store := by
  have hquantifier : (b.readQuantifier o kind text spans).store = b.store := by
    unfold readQuantifier
    split
    next => rfl
    next =>
      split
      next => rfl
      next => split <;> split <;> rfl
  have hinfo : ∀ info, (b.readCompilerInfo o info).store = b.store := by
    intro info
    unfold readCompilerInfo
    split
    next files h => exact store_annotateAll files _
    next => rfl
  unfold readEvent
  split
  next =>
    split
    next info h => exact hinfo info
    next => rfl
  next => split <;> rfl
  next => exact hquantifier

/-- **What a line does to a store**: the diagnostic on it is added. -/
theorem store_readLine (b : Board) (directory : FilePath) (o : Origin) (line : Text) :
    (b.readLine directory o line).1.store = b.store.addAll (located? directory o line).toList := by
  unfold readLine located?
  cases parseLine o line with
  | error e => rfl
  | ok parsed =>
    cases parsed with
    | none => rfl
    | some message =>
      obtain ⟨m, o'⟩ := message
      dsimp only
      cases EventKind.ofText? m.message with
      | some event => exact store_readEvent ..
      | none =>
        dsimp only [readDiagnostic]
        cases m.locate directory o' with
        | error e => rfl
        | ok l =>
          show _ = b.store.add l
          dsimp only
          by_cases hk : b.store.keeps l.diagnostic = true
          · rw [if_pos hk]
            cases Uri.ofFile? directory l.file <;> rfl
          · rw [if_neg hk, Store.add, if_neg hk]
            rfl

theorem tidy_readLine {b : Board} (h : b.store.Tidy) (directory : FilePath) (o : Origin)
    (line : Text) : (b.readLine directory o line).1.store.Tidy := by
  rw [store_readLine]
  cases hl : located? directory o line with
  | none => exact h
  | some l => exact h.add (severity_located? hl)

theorem tidy_readAll {b : Board} (h : b.store.Tidy) (directory : FilePath)
    (lines : List (Origin × Text)) : (b.readAll directory lines).store.Tidy := by
  induction lines generalizing b with
  | nil => exact h
  | cons line rest ih => exact ih (tidy_readLine h directory line.1 line.2)

end Board

namespace Engine

theorem tidy_play {e : Engine} (h : e.board.store.Tidy) (m : Move) :
    (e.play m).engine.board.store.Tidy := by
  cases m with
  | launch | abort => exact .empty e.settings.errorsOnly
  | awaitNews | drawHints | takeChanged => exact h
  | refuse target name =>
    rw [board_refuse]
    exact .empty e.settings.errorsOnly
  | output pid stream chunks closed =>
    rw [board_output]
    exact Board.tidy_readAll h e.directory _
  | exit pid code moment =>
    rw [board_exit]
    exact Board.tidy_readAll h e.directory _

theorem directory_play (e : Engine) (m : Move) : (e.play m).engine.directory = e.directory := by
  obtain ⟨board, cleared, updates, runCount, runs, h⟩ := e.play_eq m
  rw [h]

theorem settings_play (e : Engine) (m : Move) : (e.play m).engine.settings = e.settings := by
  obtain ⟨board, cleared, updates, runCount, runs, h⟩ := e.play_eq m
  rw [h]

end Engine

/-! ## Recorders -/

namespace Recorder

theorem shown_undiagnosed {effects : List Effect} (h : Undiagnosed effects) (r : Recorder) :
    (effects.foldl note r).shown = r.shown := by
  induction effects generalizing r with
  | nil => rfl
  | cons effect rest ih =>
    obtain ⟨⟨hclear, hset⟩, hrest⟩ := List.forall_mem_cons.mp h
    rw [List.foldl_cons, ih hrest]
    cases effect with
    | diagnostics uri shown => exact absurd rfl (hset uri shown)
    | clearDiagnostics => exact absurd rfl hclear
    | status | busy | errorNotice | decorations | refreshHints => rfl

theorem shown_rows (rows : Table Text (List Diagnostic)) (r : Recorder) :
    ((rows.map fun row => Effect.diagnostics row.1 row.2).foldl note r).shown =
      r.shown.putAll rows := by
  induction rows generalizing r with
  | nil => rfl
  | cons row rest ih => exact ih (r.set row.1 row.2)

end Recorder

/-! ## Counting -/

/-- The number of diagnostics in a table. -/
def total (t : Table Text (List Diagnostic)) : Nat := (t.flatMap Prod.snd).length

theorem total_put (t : Table Text (List Diagnostic)) (key : Text) (ds : List Diagnostic) :
    total (t.put key ds) + ((t.get? key).getD []).length = total t + ds.length := by
  simpa [total] using Table.countP_put (fun _ => true) t key ds

theorem total_putAll_le (t rows : Table Text (List Diagnostic)) :
    total (t.putAll rows) ≤ total t + total rows := by
  induction rows generalizing t with
  | nil => exact Nat.le_add_right _ _
  | cons row rest ih =>
    have hput := total_put t row.1 row.2
    have hrest := ih (t.put row.1 row.2)
    rw [Table.putAll_cons]
    simp only [total, List.flatMap_cons, List.length_append] at hput hrest ⊢
    omega

/-- If no diagnostic is lost when rows are put, their keys are new and each comes once. -/
theorem nodup_of_total_putAll {t rows : Table Text (List Diagnostic)} (ht : t.keys.Nodup)
    (hnonempty : ∀ row ∈ t ++ rows, row.2 ≠ []) (h : total t + total rows ≤ total (t.putAll rows)) :
    (t.keys ++ rows.keys).Nodup := by
  induction rows generalizing t with
  | nil => simpa [Table.keys] using ht
  | cons row rest ih =>
    have hput := total_put t row.1 row.2
    have hle := total_putAll_le (t.put row.1 row.2) rest
    have hcons : total (row :: rest) = row.2.length + total rest := by
      simp [total, List.flatMap_cons, List.length_append]
    rw [Table.putAll_cons, hcons] at h
    -- the row has put nothing out of its place, so its key is new
    have hold : ((t.get? row.1).getD []).length = 0 := by omega
    have hnew : row.1 ∉ t.keys := by
      intro hm
      cases hg : t.get? row.1 with
      | none => exact Table.get?_eq_none.mp hg hm
      | some ds =>
        have hds : ds = [] := by simpa [hg] using hold
        exact hnonempty _ (List.mem_append_left _ (Table.mem_of_get? hg)) hds
    have hrest := ih (Table.nodup_keys_put ht row.1 row.2) (by
      rw [Table.put_of_not_mem hnew, List.append_assoc]
      exact hnonempty) (by omega)
    rw [Table.put_of_not_mem hnew] at hrest
    simpa [Table.keys] using hrest

/-- Diagnostics with severities are counted once, under theirs. -/
theorem length_eq_counts {ds : List Diagnostic} (h : ∀ d ∈ ds, d.severity.isSome) :
    ds.length = (ds.countP fun d => d.severity = some .error) +
      (ds.countP fun d => d.severity = some .warning) +
      (ds.countP fun d => d.severity = some .information) +
      ds.countP fun d => d.severity = some .hint := by
  induction ds with
  | nil => rfl
  | cons d rest ih =>
    obtain ⟨hd, hrest⟩ := List.forall_mem_cons.mp h
    obtain ⟨v, hv⟩ := Option.isSome_iff_exists.mp hd
    have hcount := ih hrest
    cases v <;> simp [hv] at hcount ⊢ <;> omega

namespace Store

theorem mem_foldl_severities {vs seen : List Severity} {v : Severity} :
    v ∈ vs.foldl (fun seen v => if seen.contains v then seen else seen ++ [v]) seen ↔
      v ∈ seen ∨ v ∈ vs := by
  induction vs generalizing seen with
  | nil => simp
  | cons w rest ih =>
    rw [List.foldl_cons, ih, List.mem_cons, ← or_assoc]
    refine or_congr_left ?_
    by_cases hw : w ∈ seen
    · simp only [List.contains_iff_mem, hw, if_true]
      exact ⟨.inl, fun h => h.elim id (· ▸ hw)⟩
    · simp [hw]

/-- The counts tell of each severity how often it occurs; one that is left out does not. -/
theorem getD_counts (s : Store) (v : Severity) :
    (Table.get? s.counts v).getD 0 = s.count v := by
  have hget : ∀ vs : List Severity, Table.get? (vs.map fun w => (w, s.count w)) v =
      if v ∈ vs then some (s.count v) else none := by
    intro vs
    induction vs with
    | nil => rfl
    | cons w rest ih =>
      by_cases h : w = v
      · subst h; simp [Table.get?]
      · simp [Table.get?, h, Ne.symm h, ih]
  rw [counts, hget]
  split
  next => rfl
  next hv =>
    refine (List.countP_eq_zero.mpr fun d hd he => hv ?_).symm
    exact mem_foldl_severities.mpr (.inr (List.mem_filterMap.mpr ⟨d, hd, by simpa using he⟩))

/-- Nothing that a store has retained is lost on display: every diagnostic stands under the URI of
its file, nothing else is shown, and the counts are those of what is shown. -/
structure ShownBy (s : Store) (directory : FilePath) (shown : Table Text (List Diagnostic))
    (counts : Table Severity Nat) : Prop where
  retained : ∀ file, ∀ d ∈ s.diagnosticsOf file,
    ∃ uri, Uri.ofFile? directory file = some uri ∧ d ∈ (shown.get? uri).getD []
  nothingElse : ∀ uri, ∀ d ∈ (shown.get? uri).getD [],
    ∃ file, Uri.ofFile? directory file = some uri ∧ d ∈ s.diagnosticsOf file
  counted : ∀ v, (counts.get? v).getD 0 =
    (shown.flatMap Prod.snd).countP fun d => d.severity = some v

/-- The files of a store have URIs of their own. -/
def HasOwnUris (s : Store) (directory : FilePath) : Prop :=
  ∀ f ∈ s.files, ∀ g ∈ s.files, Uri.ofFile? directory f = Uri.ofFile? directory g → f = g

variable {s : Store} {directory : FilePath}

theorem shownUri_eq_iff {file uri : Text} (h : (Uri.ofFile? directory file).isSome) :
    shownUri directory file = uri ↔ Uri.ofFile? directory file = some uri := by
  obtain ⟨u, hu⟩ := Option.isSome_iff_exists.mp h
  simp [shownUri, hu]

theorem hasOwnUris_iff (h : s.Tidy)
    (hall : ∀ row ∈ s.entries, (Uri.ofFile? directory row.1).isSome) :
    s.HasOwnUris directory ↔ (uriRows directory s.entries).keys.Nodup := by
  have hkeys : (uriRows directory s.entries).keys = s.files.map (shownUri directory) := by
    simp [uriRows, Table.keys, files, Function.comp_def]
  have huri : ∀ file ∈ s.files, Uri.ofFile? directory file = some (shownUri directory file) := by
    intro file hf
    obtain ⟨row, hrow, rfl⟩ := List.mem_map.mp hf
    exact (shownUri_eq_iff (hall row hrow)).mp rfl
  rw [hkeys]
  constructor
  · intro hown
    refine List.Nodup.map_on (fun f hf g hg he => hown f hf g hg ?_) h.files
    rw [huri f hf, huri g hg, he]
  · intro hnodup f hf g hg he
    refine List.inj_on_of_nodup_map hnodup hf hg ?_
    rw [huri f hf, huri g hg] at he
    exact Option.some.inj he

/-- What stands under a URI are the diagnostics of the last file that has it. -/
theorem get?_shown (hall : ∀ row ∈ s.entries, (Uri.ofFile? directory row.1).isSome) (uri : Text) :
    (Table.putAll [] (uriRows directory s.entries)).get? uri =
      (s.entries.reverse.find? fun row => Uri.ofFile? directory row.1 = some uri).map Prod.snd := by
  have hfind : ∀ rows : Table Text (List Diagnostic),
      (∀ row ∈ rows, (Uri.ofFile? directory row.1).isSome) →
      ((uriRows directory rows).find? fun row => row.1 = uri).map Prod.snd =
        (rows.find? fun row => Uri.ofFile? directory row.1 = some uri).map Prod.snd := by
    intro rows hrows
    induction rows with
    | nil => rfl
    | cons row rest ih =>
      obtain ⟨hrow, hrest⟩ := List.forall_mem_cons.mp hrows
      have hcons : uriRows directory (row :: rest) =
          (shownUri directory row.1, row.2) :: uriRows directory rest := rfl
      rw [hcons, List.find?_cons, List.find?_cons]
      simp only [shownUri_eq_iff hrow]
      split
      next => rfl
      next => exact ih hrest
  have hreverse : (uriRows directory s.entries).reverse = uriRows directory s.entries.reverse :=
    (List.map_reverse ..).symm
  rw [Table.get?_putAll, hreverse, hfind _ fun row hrow => hall row (List.mem_reverse.mp hrow)]
  exact Option.or_none

theorem all_eq_flatMap_uriRows (s : Store) (directory : FilePath) :
    (uriRows directory s.entries).flatMap Prod.snd = s.all := by
  simp [uriRows, all, List.flatMap_map]

/-- **Nothing is lost exactly if no two files have one URI.** -/
theorem shownBy_iff (h : s.Tidy)
    (hall : ∀ row ∈ s.entries, (Uri.ofFile? directory row.1).isSome) :
    s.ShownBy directory (Table.putAll [] (uriRows directory s.entries)) s.counts ↔
      s.HasOwnUris directory := by
  have hrows : ∀ row ∈ uriRows directory s.entries,
      row.2 ≠ [] ∧ ∀ d ∈ row.2, d.severity.isSome := by
    intro row hrow
    obtain ⟨r, hr, rfl⟩ := List.mem_map.mp hrow
    exact ⟨h.rows r hr, h.severities r hr⟩
  rw [hasOwnUris_iff h hall]
  constructor
  · intro hshown
    -- the counts of all severities add up, so as many diagnostics are shown as were retained
    have hall_severities : ∀ d ∈ s.all, d.severity.isSome := by
      intro d hd
      obtain ⟨row, hrow, hd⟩ := List.mem_flatMap.mp hd
      exact h.severities row hrow d hd
    have hshown_severities : ∀ d ∈ (Table.putAll [] (uriRows directory s.entries)).flatMap Prod.snd,
        d.severity.isSome := by
      intro d hd
      obtain ⟨row, hrow, hd⟩ := List.mem_flatMap.mp hd
      rcases Table.mem_putAll hrow with hm | hm
      · cases hm
      · exact (hrows row hm).2 d hd
    have hcount : ∀ v, (s.all.countP fun d => d.severity = some v) =
        ((Table.putAll [] (uriRows directory s.entries)).flatMap Prod.snd).countP
          fun d => d.severity = some v := by
      intro v
      rw [← hshown.counted v, s.getD_counts v]
      rfl
    have htotal : total (uriRows directory s.entries) =
        total (Table.putAll [] (uriRows directory s.entries)) := by
      rw [total, total, all_eq_flatMap_uriRows, length_eq_counts hall_severities,
        length_eq_counts hshown_severities, hcount, hcount, hcount, hcount]
    have hnodup : (Table.keys [] ++ (uriRows directory s.entries).keys).Nodup :=
      nodup_of_total_putAll List.nodup_nil (fun row hrow => (hrows row hrow).1)
        (by rw [← htotal]; simp [total])
    simpa [Table.keys] using hnodup
  · intro hnodup
    have hshown : Table.putAll [] (uriRows directory s.entries) = uriRows directory s.entries :=
      Table.putAll_of_nodup (by simpa [Table.keys] using hnodup)
    have hget : ∀ row ∈ s.entries, ∀ uri, Uri.ofFile? directory row.1 = some uri →
        (uriRows directory s.entries).get? uri = some row.2 := by
      intro row hrow uri hu
      have hmem : (uri, row.2) ∈ uriRows directory s.entries :=
        List.mem_map.mpr ⟨row, hrow, by rw [(shownUri_eq_iff (hall row hrow)).mpr hu]⟩
      exact Table.get?_of_mem hnodup hmem
    rw [hshown]
    refine ⟨?_, ?_, ?_⟩
    · intro file d hd
      obtain ⟨row, hrow, rfl, hd⟩ := mem_entries_of_mem_diagnosticsOf hd
      obtain ⟨uri, hu⟩ := Option.isSome_iff_exists.mp (hall row hrow)
      exact ⟨uri, hu, by rwa [hget row hrow uri hu, Option.getD_some, ← h.diagnosticsOf_eq hrow]⟩
    · intro uri d hd
      cases hg : (uriRows directory s.entries).get? uri with
      | none => simp [hg] at hd
      | some ds =>
        obtain ⟨row, hrow, he⟩ := List.mem_map.mp (Table.mem_of_get? hg)
        obtain ⟨rfl, rfl⟩ := Prod.mk.inj he
        refine ⟨row.1, (shownUri_eq_iff (hall row hrow)).mp rfl, ?_⟩
        rw [h.diagnosticsOf_eq hrow]
        simpa [hg] using hd
    · intro v
      rw [s.getD_counts v, all_eq_flatMap_uriRows]
      rfl

end Store

/-! ## After a run -/

namespace Chronicle

theorem tidy (directory : FilePath) (settings : Settings) (decorating : Bool)
    (moves : List Move) :
    ((start (.idle directory settings decorating)).addAll moves).engine.board.store.Tidy :=
  addAll_induction (P := fun c => c.engine.board.store.Tidy) _ (.empty _)
    (fun _ m h => Engine.tidy_play h m) moves

theorem directory_addAll (c : Chronicle) (moves : List Move) :
    (c.addAll moves).engine.directory = c.engine.directory :=
  addAll_induction (P := fun d => d.engine.directory = c.engine.directory) c rfl
    (fun d m h => (d.engine.directory_play m).trans h) moves

theorem settings_addAll (c : Chronicle) (moves : List Move) :
    (c.addAll moves).engine.settings = c.engine.settings :=
  addAll_induction (P := fun d => d.engine.settings = c.engine.settings) c rfl
    (fun d m h => (d.engine.settings_play m).trans h) moves

/-- **What is shown once a run completes.** Whatever a recorder showed before, it then shows under
each URI the diagnostics of the last file of the store with that URI. So it shows just what the
store has retained, in the numbers that the outcome gives, exactly if no two files of the store have
one URI. -/
theorem shownBy_completed_iff (directory : FilePath) (settings : Settings) (decorating : Bool)
    (moves : List Move) (m : Move) (o : RunOutcome) (before : Recorder)
    (h : (((start (.idle directory settings decorating)).addAll moves).engine.play m).ending =
      some (.ended o)) :
    let t := ((start (.idle directory settings decorating)).addAll moves).engine.play m
    let store := t.engine.board.store
    let shown := (t.effects.foldl Recorder.note before).shown
    (∀ uri, shown.get? uri = (store.entries.reverse.find? fun row =>
      Uri.ofFile? directory row.1 = some uri).map Prod.snd) ∧
      (store.ShownBy directory shown o.counts ↔ store.HasOwnUris directory) := by
  intro t store shown
  obtain ⟨v, -, -, -, hcounts, hfiles, front, after, hafter, heffects⟩ := Engine.play_ended h
  rw [directory_addAll] at hfiles heffects
  obtain ⟨hall, hrows⟩ := Engine.showFiles_all hfiles
  have hshown : shown = Table.putAll [] (uriRows directory store.entries) := by
    show (t.effects.foldl Recorder.note before).shown = _
    rw [heffects, List.foldl_append, Recorder.shown_undiagnosed hafter, List.foldl_append,
      List.foldl_cons, hrows, Recorder.shown_rows]
    rfl
  have htidy : store.Tidy := by
    have := tidy directory settings decorating (moves ++ [m])
    rwa [addAll_concat] at this
  rw [hshown, hcounts]
  exact ⟨Store.get?_shown hall, Store.shownBy_iff htidy hall⟩

/-! A file has errors under two spellings of its path, which have one URI. -/

/-- A line with an error in a file. -/
def errorLine (file : String) : Text.Bytes :=
  Text.utf8 <| String.toList <|
    "\x7b\"message\":\"overflow\",\"level\":\"error\",\"spans\":[\x7b\"file_name\":\"" ++ file ++
    "\",\"line_start\":1,\"line_end\":1,\"column_start\":1,\"column_end\":2," ++
    "\"is_primary\":true\x7d]\x7d\n"

def twinMoves : List Move :=
  [.launch .file "a.rs" (fileInvocation "/w/a.rs") 1 .zero,
   .output 1 .stderr [errorLine "/w/a.rs", errorLine "/w//a.rs"] true]

def twins : Chronicle := (start (.idle (.ofText "/w") .default true)).addAll twinMoves

theorem twins_hidden : ∃ o,
    (twins.engine.play (.exit 1 (some 1) .zero)).ending = some (.ended o) ∧
      ¬ (twins.engine.play (.exit 1 (some 1) .zero)).engine.board.store.ShownBy (.ofText "/w")
        ((twins.engine.play (.exit 1 (some 1) .zero)).effects.foldl Recorder.note .start).shown
        o.counts := by
  obtain ⟨⟨o, h⟩, hfirst, hsecond, huri⟩ :
      (twins.engine.play (.exit 1 (some 1) .zero)).Completes ∧
      ("/w/a.rs" : Text) ∈
        (twins.engine.play (.exit 1 (some 1) .zero)).engine.board.store.files ∧
      ("/w//a.rs" : Text) ∈
        (twins.engine.play (.exit 1 (some 1) .zero)).engine.board.store.files ∧
      Uri.ofFile? (.ofText "/w") "/w/a.rs" = Uri.ofFile? (.ofText "/w") "/w//a.rs" := by
    decide +kernel
  have hiff := shownBy_completed_iff (.ofText "/w") .default true twinMoves
    (.exit 1 (some 1) .zero) o .start h
  dsimp only at hiff
  rw [← twins] at hiff
  refine ⟨o, h, fun hshown => ?_⟩
  have hsame := hiff.2.mp hshown _ hfirst _ hsecond huri
  exact absurd hsame (by decide)

end Chronicle

end VerifierHost
