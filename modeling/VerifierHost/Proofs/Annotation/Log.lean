import Mathlib.Data.List.Forall2
import VerifierHost.Proofs.Run.Hints

/-! # An index of annotations as a log of updates

Whatever an index of annotations is asked, it answers from nothing but the log of the updates that
count: those of a file since the file was last forgotten. The payload of a range merges all its
updates, the files and their ranges stand in the order of their first updates, and what was drawn
before shows only in that nothing is labelled again. -/

namespace VerifierHost

/-! ## First occurrences -/

section Firsts

variable {α : Type} [DecidableEq α]

theorem eraseDups_concat (l : List α) (a : α) :
    (l ++ [a]).eraseDups = if a ∈ l then l.eraseDups else l.eraseDups ++ [a] := by
  rw [List.eraseDups_append]
  by_cases h : a ∈ l <;> simp [h, List.cons_removeAll, List.eraseDups_cons]

theorem nodup_eraseDups (l : List α) : l.eraseDups.Nodup := by
  induction l using List.reverseRecOn with
  | nil => exact List.nodup_nil
  | append_singleton l a ih =>
    rw [eraseDups_concat]
    split
    next => exact ih
    next h =>
      refine List.nodup_append.mpr ⟨ih, by simp, ?_⟩
      intro b hb c hc he
      rw [List.mem_singleton.mp hc] at he
      exact h (he ▸ List.mem_eraseDups.mp hb)

theorem eraseDups_filter (p : α → Bool) (l : List α) :
    (l.filter p).eraseDups = l.eraseDups.filter p := by
  induction l using List.reverseRecOn with
  | nil => rfl
  | append_singleton l a ih =>
    rw [List.filter_append, eraseDups_concat]
    cases hp : p a with
    | false => by_cases ha : a ∈ l <;> simp [hp, ha, ih]
    | true => by_cases ha : a ∈ l <;> simp [hp, ha, ih, eraseDups_concat]

end Firsts

namespace Table

variable {κ α : Type}

/-- The table of the keys for which there is a value, in their order. -/
def tabulate (keys : List κ) (value? : κ → Option α) : Table κ α :=
  keys.filterMap fun key => (value? key).map (key, ·)

theorem keys_tabulate {keys : List κ} {value? : κ → Option α}
    (h : ∀ key ∈ keys, (value? key).isSome) : (tabulate keys value?).keys = keys := by
  induction keys with
  | nil => rfl
  | cons key rest ih =>
    obtain ⟨value, hv⟩ := Option.isSome_iff_exists.mp (h key List.mem_cons_self)
    have hrest := ih fun k hk => h k (List.mem_cons_of_mem _ hk)
    simpa [tabulate, Table.keys, hv] using hrest

variable [DecidableEq κ]

/-- A table is known by its keys and what is found under them. -/
theorem ext_get? {t t' : Table κ α} (h : t.keys.Nodup) (hkeys : t.keys = t'.keys)
    (hget : ∀ key, t.get? key = t'.get? key) : t = t' := by
  induction t generalizing t' with
  | nil => exact (List.map_eq_nil_iff.mp hkeys.symm).symm
  | cons row rest ih =>
    cases t' with
    | nil => cases hkeys
    | cons row' rest' =>
      obtain ⟨hkey, hrest⟩ := List.cons.inj hkeys
      obtain ⟨hnew, hnodup⟩ := List.nodup_cons.mp h
      have hvalue := hget row.1
      rw [get?, if_pos rfl, get?, if_pos hkey.symm] at hvalue
      have hrow : row = row' := Prod.ext hkey (Option.some.inj hvalue)
      subst hrow
      refine congrArg _ (ih hnodup hrest fun key => ?_)
      by_cases hk : row.1 = key
      · subst hk
        rw [get?_eq_none.mpr hnew, get?_eq_none.mpr fun hm => hnew (hrest ▸ hm)]
      · have hsame := hget key
        rw [get?, if_neg hk, get?, if_neg hk] at hsame
        exact hsame

theorem get?_tabulate (keys : List κ) (value? : κ → Option α) (key : κ) :
    (tabulate keys value?).get? key = if key ∈ keys then value? key else none := by
  induction keys with
  | nil => rfl
  | cons first rest ih =>
    by_cases hk : first = key
    · subst hk
      cases hv : value? first with
      | none => simpa [tabulate, hv] using ih
      | some value => simp [tabulate, hv, get?]
    · cases hv : value? first with
      | none => simpa [tabulate, hv, Ne.symm hk] using ih
      | some value => simpa [tabulate, hv, get?, hk, Ne.symm hk] using ih

end Table

/-! ## Calls -/

/-- What may be asked of an index. -/
inductive IndexCall (δ : Type) where
  | update (file : Text) (range : Range) (delta : δ)
  | entries (file : Text)
  | files
  | lookup (file : Text) (position : Position)
  | hoverText (file : Text) (position : Position)
  | render (file : Text)
  | takeChanged
  | clearFile (file : Text)
  | clear

namespace IndexCall

variable {δ : Type}

/-- Whether a file is forgotten. -/
def forgets (file : Text) : IndexCall δ → Bool
  | .clearFile f => f = file
  | .clear => true
  | _ => false

/-- Whether a file is updated or forgotten. -/
def touches (file : Text) : IndexCall δ → Bool
  | .update f .. => f = file
  | c => c.forgets file

end IndexCall

namespace AnnotationIndex

variable {π δ : Type} {kind : AnnotationKind π δ}

/-- The index after a call; most calls leave it as it was. -/
def call (kind : AnnotationKind π δ) (x : AnnotationIndex π) : IndexCall δ → AnnotationIndex π
  | .update file range delta => x.update kind file range delta
  | .render file => (x.render kind file).index
  | .takeChanged => x.takeChanged.2
  | .clearFile file => x.clearFile file
  | .clear => x.clear
  | .entries _ | .files | .lookup .. | .hoverText .. => x

/-- An index that was called so from its beginning on. -/
def after (kind : AnnotationKind π δ) (calls : List (IndexCall δ)) : AnnotationIndex π :=
  calls.foldl (call kind) .empty

theorem after_concat (calls : List (IndexCall δ)) (c : IndexCall δ) :
    after kind (calls ++ [c]) = (after kind calls).call kind c := by
  rw [after, List.foldl_append]
  rfl

end AnnotationIndex

/-! ## The log -/

/-- The updates that count, in order: all but those of files that are forgotten later. -/
def updatesOf {δ : Type} : List (IndexCall δ) → List (Place × δ)
  | [] => []
  | .update file range delta :: later =>
    if later.any (·.forgets file) then updatesOf later
    else ((file, range), delta) :: updatesOf later
  | _ :: later => updatesOf later

section Log

variable {π δ : Type} {kind : AnnotationKind π δ} {log : List (Place × δ)} {file : Text}

/-- The files of a log, each where it first came. -/
def filesIn (log : List (Place × δ)) : List Text := (log.map fun row => row.1.1).eraseDups

/-- The ranges of a file, each where it first came. -/
def rangesIn (log : List (Place × δ)) (file : Text) : List Range :=
  ((log.filter fun row => row.1.1 = file).map fun row => row.1.2).eraseDups

/-- The updates of a place. -/
def updatesAt (log : List (Place × δ)) (place : Place) : List δ :=
  (log.filter fun row => row.1 = place).map Prod.snd

/-- All updates merged into one payload, beginning with none. -/
def mergeAll (kind : AnnotationKind π δ) (deltas : List δ) : Option π :=
  deltas.foldl (fun payload delta => some (kind.merge payload delta)) none

/-- The payloads of a file by their ranges. -/
def entriesIn (kind : AnnotationKind π δ) (log : List (Place × δ)) (file : Text) :
    Table Range π :=
  Table.tabulate (rangesIn log file) fun range => mergeAll kind (updatesAt log (file, range))

/-- The updates before a call that count after it are those of files that it does not forget. -/
theorem updatesOf_concat (calls : List (IndexCall δ)) (c : IndexCall δ) :
    updatesOf (calls ++ [c]) =
      (updatesOf calls).filter (fun row => !c.forgets row.1.1) ++ updatesOf [c] := by
  induction calls with
  | nil => rfl
  | cons first rest ih =>
    cases first with
    | update f range delta =>
      rw [List.cons_append, updatesOf, updatesOf, List.any_append, ih]
      cases hrest : rest.any (·.forgets f) with
      | true => simp
      | false => cases hc : c.forgets f <;> simp [hc]
    | entries | files | lookup | hoverText | render | takeChanged | clearFile | clear => exact ih

theorem updatesOf_concat_of_not_forgets (calls : List (IndexCall δ)) {c : IndexCall δ}
    (h : ∀ file, c.forgets file = false) :
    updatesOf (calls ++ [c]) = updatesOf calls ++ updatesOf [c] := by
  rw [updatesOf_concat, List.filter_eq_self.mpr fun row _ => by rw [h]; rfl]

theorem mergeAll_concat (kind : AnnotationKind π δ) (deltas : List δ) (delta : δ) :
    mergeAll kind (deltas ++ [delta]) = some (kind.merge (mergeAll kind deltas) delta) := by
  rw [mergeAll, List.foldl_append]
  rfl

theorem isSome_mergeAll {deltas : List δ} (h : deltas ≠ []) : (mergeAll kind deltas).isSome := by
  induction deltas using List.reverseRecOn with
  | nil => exact absurd rfl h
  | append_singleton rest last _ =>
    rw [mergeAll_concat]
    rfl

theorem updatesAt_ne_nil {range : Range} :
    updatesAt log (file, range) ≠ [] ↔ range ∈ rangesIn log file := by
  rw [updatesAt, rangesIn, List.mem_eraseDups, ne_eq, List.map_eq_nil_iff]
  simp only [List.filter_eq_nil_iff, List.mem_map, List.mem_filter, decide_eq_true_eq]
  constructor
  · intro h
    obtain ⟨row, hm, he⟩ := not_forall₂.mp h
    have he := not_not.mp he
    exact ⟨row, ⟨hm, congrArg Prod.fst he⟩, congrArg Prod.snd he⟩
  · intro ⟨row, ⟨hm, hf⟩, hr⟩ h
    exact h row hm (Prod.ext hf hr)

theorem updatesAt_concat (log : List (Place × δ)) (place : Place) (delta : δ) (other : Place) :
    updatesAt (log ++ [(place, delta)]) other =
      updatesAt log other ++ if place = other then [delta] else [] := by
  by_cases h : place = other <;> simp [updatesAt, h]

theorem rangesIn_concat (log : List (Place × δ)) (place : Place) (delta : δ) (file : Text) :
    rangesIn (log ++ [(place, delta)]) file =
      if place.1 = file ∧ place.2 ∉ rangesIn log file then rangesIn log file ++ [place.2]
      else rangesIn log file := by
  by_cases h : place.1 = file
  · have hrows : ((log ++ [(place, delta)]).filter fun row => row.1.1 = file).map
        (fun row => row.1.2) =
        (log.filter fun row => row.1.1 = file).map (fun row => row.1.2) ++ [place.2] := by
      simp [h]
    rw [rangesIn, hrows, eraseDups_concat]
    by_cases hm : place.2 ∈ rangesIn log file
    · rw [if_pos (List.mem_eraseDups.mp hm), if_neg fun hn => hn.2 hm]
      rfl
    · rw [if_neg (mt List.mem_eraseDups.mpr hm), if_pos ⟨h, hm⟩]
      rfl
  · simp [rangesIn, h]

theorem keys_entriesIn (kind : AnnotationKind π δ) (log : List (Place × δ)) (file : Text) :
    (entriesIn kind log file).keys = rangesIn log file :=
  Table.keys_tabulate fun _ hr => isSome_mergeAll (updatesAt_ne_nil.mpr hr)

theorem get?_entriesIn (kind : AnnotationKind π δ) (log : List (Place × δ)) (file : Text)
    (range : Range) : (entriesIn kind log file).get? range =
      mergeAll kind (updatesAt log (file, range)) := by
  rw [entriesIn, Table.get?_tabulate]
  split
  next => rfl
  next h =>
    rw [not_not.mp (mt updatesAt_ne_nil.mp h)]
    rfl

/-- The payloads of a file depend on the updates of that file only. -/
theorem entriesIn_congr {log' : List (Place × δ)}
    (h : (log.filter fun row => row.1.1 = file) = log'.filter fun row => row.1.1 = file) :
    entriesIn kind log file = entriesIn kind log' file := by
  have hsplit : ∀ (l : List (Place × δ)) (range : Range), updatesAt l (file, range) =
      ((l.filter fun row => row.1.1 = file).filter fun row => row.1.2 = range).map Prod.snd := by
    intro l range
    rw [updatesAt, List.filter_filter]
    refine congrArg (List.map Prod.snd) (List.filter_congr fun row _ => ?_)
    simp [Prod.ext_iff, and_comm]
  have hupdates : ∀ range, updatesAt log (file, range) = updatesAt log' (file, range) := by
    intro range
    rw [hsplit, hsplit, h]
  rw [entriesIn, entriesIn, rangesIn, rangesIn, h]
  simp only [hupdates]

/-- What is left of a log when some files are dropped. -/
theorem filesIn_filter (p : Text → Bool) (log : List (Place × δ)) :
    filesIn (log.filter fun row => p row.1.1) = (filesIn log).filter p := by
  rw [filesIn, filesIn, ← eraseDups_filter, List.filter_map]
  rfl

theorem entriesIn_filter (kind : AnnotationKind π δ) (p : Text → Bool) (log : List (Place × δ))
    (file : Text) : entriesIn kind (log.filter fun row => p row.1.1) file =
      if p file then entriesIn kind log file else [] := by
  have hrow : ∀ row : Place × δ,
      (decide (row.1.1 = file) && p row.1.1) = (p file && decide (row.1.1 = file)) := by
    intro row
    by_cases hr : row.1.1 = file <;> simp [hr]
  cases hp : p file with
  | true =>
    rw [if_pos rfl]
    refine entriesIn_congr ?_
    rw [List.filter_filter]
    exact List.filter_congr fun row _ => by rw [hrow, hp, Bool.true_and]
  | false =>
    have hnone : entriesIn kind (log.filter fun row => p row.1.1) file =
        entriesIn kind [] file := by
      refine entriesIn_congr ?_
      rw [List.filter_filter]
      exact List.filter_eq_nil_iff.mpr fun row _ => by simp [hrow, hp]
    exact hnone

theorem entriesIn_concat_of_ne (kind : AnnotationKind π δ) (log : List (Place × δ)) {place : Place}
    (delta : δ) (h : place.1 ≠ file) :
    entriesIn kind (log ++ [(place, delta)]) file = entriesIn kind log file :=
  entriesIn_congr (by simp [h])

/-- One more update is merged into the payload of its range. -/
theorem entriesIn_concat (kind : AnnotationKind π δ) (log : List (Place × δ)) (file : Text)
    (range : Range) (delta : δ) : entriesIn kind (log ++ [((file, range), delta)]) file =
      (entriesIn kind log file).put range
        (kind.merge ((entriesIn kind log file).get? range) delta) := by
  refine Table.ext_get? ?_ ?_ fun key => ?_
  · rw [keys_entriesIn]
    exact nodup_eraseDups _
  · rw [Table.keys_put, keys_entriesIn, keys_entriesIn, rangesIn_concat]
    by_cases hm : range ∈ rangesIn log file <;> simp [hm]
  · rw [get?_entriesIn, updatesAt_concat]
    by_cases hk : range = key
    · subst hk
      rw [Table.get?_put_self, get?_entriesIn, if_pos rfl, mergeAll_concat]
    · rw [Table.get?_put_of_ne _ _ hk, get?_entriesIn, if_neg (by simpa using hk),
        List.append_nil]

theorem filesIn_concat (log : List (Place × δ)) (place : Place) (delta : δ) :
    filesIn (log ++ [(place, delta)]) =
      if place.1 ∈ filesIn log then filesIn log else filesIn log ++ [place.1] := by
  have hrows : (log ++ [(place, delta)]).map (fun row => row.1.1) =
      log.map (fun row => row.1.1) ++ [place.1] := by simp
  rw [filesIn, hrows, eraseDups_concat]
  by_cases hm : place.1 ∈ filesIn log
  · rw [if_pos (List.mem_eraseDups.mp hm), if_pos hm]
    rfl
  · rw [if_neg (mt List.mem_eraseDups.mpr hm), if_neg hm]
    rfl

end Log

/-! ## The index keeps to the log -/

namespace AnnotationIndex

variable {π δ : Type} {kind : AnnotationKind π δ} {x : AnnotationIndex π}
  {log : List (Place × δ)} {file : Text}

/-- An index holds what a log says. -/
structure Reflects (kind : AnnotationKind π δ) (x : AnnotationIndex π) (log : List (Place × δ)) :
    Prop where
  files : x.files = filesIn log
  entries : ∀ file, x.entriesOf file = entriesIn kind log file

namespace Reflects

theorem empty : Reflects kind .empty [] := ⟨rfl, fun _ => rfl⟩

theorem congr {y : AnnotationIndex π} (h : x.Reflects kind log) (he : y.entries = x.entries) :
    y.Reflects kind log :=
  ⟨(congrArg Table.keys he).trans h.files,
    fun file => (entriesOf_congr he file).trans (h.entries file)⟩

theorem update (h : x.Reflects kind log) (file : Text) (range : Range) (delta : δ) :
    (x.update kind file range delta).Reflects kind (log ++ [((file, range), delta)]) := by
  refine ⟨?_, fun other => ?_⟩
  · have hkeys : (x.update kind file range delta).files =
        if file ∈ x.files then x.files else x.files ++ [file] := Table.keys_put ..
    rw [hkeys, h.files, filesIn_concat]
  · rw [entriesOf_update, h.entries, h.entries]
    by_cases hf : file = other
    · subst hf
      rw [if_pos rfl, entriesIn_concat]
    · rw [if_neg hf, entriesIn_concat_of_ne kind log delta hf]

theorem clearFile (h : x.Reflects kind log) (file : Text) :
    (x.clearFile file).Reflects kind (log.filter fun row => !decide (file = row.1.1)) := by
  refine ⟨?_, fun other => ?_⟩
  · rw [filesIn_filter fun f => !decide (file = f), ← h.files]
    show (x.entries.erase file).map Prod.fst = (x.entries.map Prod.fst).filter _
    rw [List.filter_map]
    refine congrArg (List.map Prod.fst) (List.filter_congr fun row _ => ?_)
    simp [eq_comm]
  · rw [entriesOf_clearFile, h.entries, entriesIn_filter kind (fun f => !decide (file = f))]
    by_cases hf : file = other <;> simp [hf]

end Reflects

/-- Whatever it was called for, an index holds what the log of its updates says. -/
theorem reflects_after (kind : AnnotationKind π δ) (calls : List (IndexCall δ)) :
    (after kind calls).Reflects kind (updatesOf calls) := by
  induction calls using List.reverseRecOn with
  | nil => exact .empty
  | append_singleton calls c ih =>
    rw [after_concat]
    cases c with
    | update file range delta =>
      rw [updatesOf_concat_of_not_forgets calls fun _ => rfl]
      exact ih.update file range delta
    | clearFile file =>
      rw [updatesOf_concat]
      exact (List.append_nil _).symm ▸ ih.clearFile file
    | clear =>
      have hnone : updatesOf (calls ++ [.clear]) = [] := by
        rw [updatesOf_concat]
        simp [IndexCall.forgets, updatesOf]
      rw [hnone]
      exact .empty
    | render file =>
      rw [updatesOf_concat_of_not_forgets calls fun _ => rfl]
      exact (List.append_nil _).symm ▸ ih.congr (entries_render kind _ file)
    | takeChanged | entries | files | lookup | hoverText =>
      rw [updatesOf_concat_of_not_forgets calls fun _ => rfl]
      exact (List.append_nil _).symm ▸ ih.congr rfl

/-- What is drawn and not stale is what would be drawn now, whatever was called. -/
theorem current_after (kind : AnnotationKind π δ) (calls : List (IndexCall δ)) :
    (after kind calls).Current kind := by
  induction calls using List.reverseRecOn with
  | nil => exact .empty
  | append_singleton calls c ih =>
    rw [after_concat]
    cases c with
    | update file range delta => exact ih.update file range delta
    | render file => exact ih.render file
    | takeChanged => exact ih.takeChanged
    | clearFile file => exact ih.clearFile file
    | clear => exact .empty
    | entries | files | lookup | hoverText => exact ih

/-! ## What is drawn again -/

/-- The annotations of a file are kept from an earlier drawing. -/
def Keeps (x : AnnotationIndex π) (file : Text) : Prop :=
  (x.drawn.get? file).isSome ∧ file ∉ x.stale

theorem keeps_update (kind : AnnotationKind π δ) (x : AnnotationIndex π) (f : Text) (range : Range)
    (delta : δ) : (x.update kind f range delta).Keeps file ↔ f ≠ file ∧ x.Keeps file := by
  have hmem : file ∈ (x.update kind f range delta).stale ↔ file ∈ x.stale ∨ file = f := by
    dsimp only [update]
    split
    next hf => exact ⟨.inl, fun h => h.elim id (· ▸ hf)⟩
    next => simp
  unfold Keeps
  rw [hmem, not_or]
  exact ⟨fun ⟨hd, hs, hne⟩ => ⟨Ne.symm hne, hd, hs⟩, fun ⟨hne, hd, hs⟩ => ⟨hd, hs, Ne.symm hne⟩⟩

theorem keeps_clearFile (x : AnnotationIndex π) (f : Text) :
    (x.clearFile f).Keeps file ↔ f ≠ file ∧ x.Keeps file := by
  show ((x.drawn.erase f).get? file).isSome ∧ file ∉ x.stale.filter (· ≠ f) ↔ _
  by_cases hf : f = file
  · subst hf
    simp
  · rw [Table.get?_erase_of_ne _ hf]
    simp [Keeps, hf, Ne.symm hf]

/-- Nothing is labelled for annotations that were kept. -/
theorem render_of_keeps (h : x.Keeps file) :
    (x.render kind file).index = x ∧ (x.render kind file).drawnNow = [] ∧
      (x.render kind file).annotations.isSome := by
  obtain ⟨annotations, hdrawn⟩ := Option.isSome_iff_exists.mp h.1
  simp [render, hdrawn, h.2]

theorem render_of_not_keeps (h : ¬ x.Keeps file) :
    (x.render kind file).drawnNow = labelled kind (x.entriesOf file) ∧
      ∀ f, (x.render kind file).index.Keeps f ↔
        x.Keeps f ∨ file = f ∧ (x.render kind file).annotations.isSome := by
  unfold render
  split
  next annotations hdrawn hstale =>
    exact absurd ⟨by rw [hdrawn]; rfl, of_decide_eq_false hstale⟩ h
  next =>
    dsimp only
    split
    next => exact ⟨rfl, fun f => by simp⟩
    next annotations hnow =>
      refine ⟨rfl, fun f => ?_⟩
      show ((x.drawn.put file annotations).get? f).isSome ∧ f ∉ x.stale.filter (· ≠ file) ↔ _
      by_cases hf : file = f
      · subst hf
        simp
      · rw [Table.get?_put_of_ne _ _ hf]
        simp [Keeps, hf, Ne.symm hf]

theorem keeps_render (kind : AnnotationKind π δ) (x : AnnotationIndex π) (f : Text) :
    (x.render kind f).index.Keeps file ↔
      x.Keeps file ∨ f = file ∧ (x.render kind f).annotations.isSome := by
  by_cases h : x.Keeps f
  · rw [(render_of_keeps h).1]
    exact ⟨.inl, fun hk => hk.elim id fun he => he.1 ▸ h⟩
  · exact (render_of_not_keeps h).2 file

/-- The annotations of a file were drawn, and since then it was neither updated nor forgotten. -/
def Settled (kind : AnnotationKind π δ) (calls : List (IndexCall δ)) (file : Text) : Prop :=
  ∃ before between, calls = before ++ .render file :: between ∧
    ((after kind before).render kind file).annotations.isSome ∧
    ∀ c ∈ between, c.touches file = false

theorem settled_concat (calls : List (IndexCall δ)) (c : IndexCall δ) :
    Settled kind (calls ++ [c]) file ↔ c.touches file = false ∧ Settled kind calls file ∨
      c = .render file ∧ ((after kind calls).render kind file).annotations.isSome := by
  constructor
  · intro ⟨before, between, hcalls, hdrawn, huntouched⟩
    induction between using List.reverseRecOn with
    | nil =>
      obtain ⟨rfl, hc⟩ := List.append_inj' hcalls rfl
      exact .inr ⟨List.singleton_inj.mp hc, hdrawn⟩
    | append_singleton between last _ =>
      have hsplit : calls ++ [c] = (before ++ .render file :: between) ++ [last] := by
        rw [hcalls, List.append_assoc, List.cons_append]
      obtain ⟨rfl, hc⟩ := List.append_inj' hsplit rfl
      cases List.singleton_inj.mp hc
      refine .inl ⟨huntouched c (by simp), before, between, rfl, hdrawn, fun d hd => ?_⟩
      exact huntouched d (List.mem_append_left _ hd)
  · intro h
    rcases h with ⟨hc, before, between, rfl, hdrawn, huntouched⟩ | ⟨rfl, hdrawn⟩
    · refine ⟨before, between ++ [c], by simp, hdrawn, fun d hd => ?_⟩
      rcases List.mem_append.mp hd with hd | hd
      · exact huntouched d hd
      · exact List.mem_singleton.mp hd ▸ hc
    · exact ⟨calls, [], rfl, hdrawn, nofun⟩

theorem keeps_call (kind : AnnotationKind π δ) (x : AnnotationIndex π) (c : IndexCall δ) :
    (x.call kind c).Keeps file ↔ c.touches file = false ∧ x.Keeps file ∨
      c = .render file ∧ (x.render kind file).annotations.isSome := by
  cases c with
  | update f range delta => simpa [call, IndexCall.touches] using keeps_update kind x f range delta
  | clearFile f =>
    simpa [call, IndexCall.touches, IndexCall.forgets] using keeps_clearFile x f
  | clear => simp [call, clear, Keeps, IndexCall.touches, IndexCall.forgets, Table.get?]
  | render f =>
    refine (keeps_render kind x f).trans (or_congr ?_ ?_)
    · simp [IndexCall.touches, IndexCall.forgets]
    · rw [IndexCall.render.injEq]
      exact and_congr_right fun he => by rw [he]
  | takeChanged | entries | files | lookup | hoverText =>
    simp [call, takeChanged, Keeps, IndexCall.touches, IndexCall.forgets]

theorem keeps_after_iff (calls : List (IndexCall δ)) :
    (after kind calls).Keeps file ↔ Settled kind calls file := by
  induction calls using List.reverseRecOn with
  | nil =>
    refine ⟨fun h => absurd h.1 Bool.false_ne_true, fun h => ?_⟩
    obtain ⟨before, between, hcalls, -⟩ := h
    simp at hcalls
  | append_singleton calls c ih => rw [after_concat, keeps_call, ih, settled_concat]

/-! ## Answers -/

/-- The annotation of a range with its payload. -/
structure Draws (kind : AnnotationKind π δ) (row : Range × π) (a : Annotation) : Prop where
  range : a.range = row.1
  label : kind.label row.2 = some a.label
  tooltip : kind.describe row.2 = some a.tooltip

theorem annotation?_eq_some {row : Range × π} {a : Annotation} :
    annotation? kind row.1 row.2 = some a ↔ Draws kind row a := by
  obtain ⟨range, label, tooltip⟩ := a
  unfold annotation?
  constructor
  · intro h
    split at h
    next hl hd =>
      cases h
      exact ⟨rfl, hl, hd⟩
    next => cases h
  · intro h
    rw [h.label, h.tooltip, ← h.range]

theorem draw?_eq_some {payloads : Table Range π} {annotations : List Annotation} :
    draw? kind payloads = some annotations ↔ List.Forall₂ (Draws kind) payloads annotations := by
  induction payloads generalizing annotations with
  | nil =>
    rw [List.forall₂_nil_left_iff]
    exact ⟨fun h => (Option.some.inj h).symm, fun h => congrArg some h.symm⟩
  | cons row rest ih =>
    have hcons : draw? kind (row :: rest) =
        (annotation? kind row.1 row.2).bind fun a => (draw? kind rest).bind fun as =>
          some (a :: as) := List.mapM_cons ..
    rw [hcons, List.forall₂_cons_left_iff]
    simp only [Option.bind_eq_some_iff, annotation?_eq_some, ih, Option.some.injEq]
    constructor
    · intro ⟨a, ha, as, has, he⟩
      exact ⟨a, as, ha, has, he.symm⟩
    · intro ⟨a, as, ha, has, he⟩
      exact ⟨a, ha, as, has, he.symm⟩

/-- **An index answers from the log of its updates**, whatever it was called for. The payloads of a
file, its annotations and what is said about a position are those of the updates since the file was
last forgotten, and the files are those that have any. Payloads are labelled only for a file that
was updated or forgotten since it was last drawn, or never was. -/
theorem answers_from_log (kind : AnnotationKind π δ) (calls : List (IndexCall δ)) (file : Text) :
    (after kind calls).entriesOf file = entriesIn kind (updatesOf calls) file ∧
    (after kind calls).files = filesIn (updatesOf calls) ∧
    (∀ p, (after kind calls).lookup file p =
        Range.innermost (entriesIn kind (updatesOf calls) file) p ∧
      (after kind calls).hoverText kind file p =
        match Range.innermost (entriesIn kind (updatesOf calls) file) p with
        | none => .silent
        | some (_, payload) => .ofText? (kind.describe payload)) ∧
    (∀ annotations, ((after kind calls).render kind file).annotations = some annotations ↔
      List.Forall₂ (Draws kind) (entriesIn kind (updatesOf calls) file) annotations) ∧
    (Settled kind calls file → ((after kind calls).render kind file).drawnNow = []) ∧
    (¬ Settled kind calls file → ((after kind calls).render kind file).drawnNow =
      labelled kind (entriesIn kind (updatesOf calls) file)) := by
  have hreflects := reflects_after kind calls
  refine ⟨hreflects.entries file, hreflects.files, fun p => ?_, fun annotations => ?_, ?_, ?_⟩
  · have hlookup : (after kind calls).lookup file p =
        Range.innermost (entriesIn kind (updatesOf calls) file) p := by
      rw [lookup, hreflects.entries]
    rw [← hlookup]
    exact ⟨rfl, rfl⟩
  · rw [(current_after kind calls).annotations_render, hreflects.entries]
    exact draw?_eq_some
  · intro h
    exact (render_of_keeps ((keeps_after_iff calls).mpr h)).2.1
  · intro h
    rw [(render_of_not_keeps (mt (keeps_after_iff calls).mp h)).1, hreflects.entries]

end AnnotationIndex

end VerifierHost
