import Mathlib.Data.List.Forall2
import Mathlib.Data.List.Induction
import Mathlib.Logic.Relation
import VerifierHost.Diagnostic.Located

/-! # Trees of messages as diagnostics

A tree of messages becomes one diagnostic with a flat list of related places: one for each span
that is not primary, and one for each child of the message, in that order. Each is described here on
its own, by where the span was called from or where the child stands; whatever is below the children
is not seen. -/

namespace VerifierHost

namespace Range

/-- A range that joins others: it starts as the earliest of them and stops as the latest. -/
structure Joins (r : Range) (parts : List Range) : Prop where
  start : ∃ a ∈ parts, a.start = r.start
  stop : ∃ a ∈ parts, a.stop = r.stop
  contains : ∀ a ∈ parts, r.Contains a

variable {a b r : Range} {parts rest : List Range}

theorem contains_refl (r : Range) : r.Contains r := ⟨Position.le_refl _, Position.le_refl _⟩

theorem Contains.trans (h : a.Contains b) (h' : b.Contains r) : a.Contains r :=
  ⟨Position.le_trans h.1 h'.1, Position.le_trans h'.2 h.2⟩

theorem contains_union_left (a b : Range) : (a.union b).Contains a := by
  refine ⟨?_, ?_⟩
  · show Position.earlier a.start b.start ≤ a.start
    unfold Position.earlier
    split
    next => exact Position.le_refl _
    next h => exact (Position.le_total _ _).resolve_left h
  · show a.stop ≤ Position.later a.stop b.stop
    unfold Position.later
    split
    next h => exact h
    next => exact Position.le_refl _

theorem contains_union_right (a b : Range) : (a.union b).Contains b := by
  refine ⟨?_, ?_⟩
  · show Position.earlier a.start b.start ≤ b.start
    unfold Position.earlier
    split
    next h => exact h
    next => exact Position.le_refl _
  · show b.stop ≤ Position.later a.stop b.stop
    unfold Position.later
    split
    next => exact Position.le_refl _
    next h => exact (Position.le_total _ _).resolve_left h

theorem start_union (a b : Range) :
    (a.union b).start = a.start ∨ (a.union b).start = b.start := by
  show Position.earlier _ _ = _ ∨ Position.earlier _ _ = _
  unfold Position.earlier
  split
  next => exact .inl rfl
  next => exact .inr rfl

theorem stop_union (a b : Range) : (a.union b).stop = a.stop ∨ (a.union b).stop = b.stop := by
  show Position.later _ _ = _ ∨ Position.later _ _ = _
  unfold Position.later
  split
  next => exact .inr rfl
  next => exact .inl rfl

theorem joins_singleton (r : Range) : r.Joins [r] := by
  refine ⟨⟨r, List.mem_cons_self, rfl⟩, ⟨r, List.mem_cons_self, rfl⟩, fun a ha => ?_⟩
  rw [List.mem_singleton.mp ha]
  exact contains_refl r

theorem Joins.concat (h : r.Joins parts) (a : Range) : (r.union a).Joins (parts ++ [a]) := by
  have hleft : ∀ b ∈ parts, b ∈ parts ++ [a] := fun b hb => List.mem_append_left _ hb
  have hself : a ∈ parts ++ [a] := List.mem_append_right _ List.mem_cons_self
  refine ⟨?_, ?_, fun b hb => ?_⟩
  · rcases start_union r a with he | he
    · obtain ⟨b, hb, hstart⟩ := h.start
      exact ⟨b, hleft b hb, hstart.trans he.symm⟩
    · exact ⟨a, hself, he.symm⟩
  · rcases stop_union r a with he | he
    · obtain ⟨b, hb, hstop⟩ := h.stop
      exact ⟨b, hleft b hb, hstop.trans he.symm⟩
    · exact ⟨a, hself, he.symm⟩
  · rcases List.mem_append.mp hb with hb | hb
    · exact (contains_union_left r a).trans (h.contains b hb)
    · rw [List.mem_singleton.mp hb]
      exact contains_union_right r a

theorem joins_foldl (r : Range) (rest : List Range) :
    (rest.foldl union r).Joins (r :: rest) := by
  induction rest using List.reverseRecOn with
  | nil => exact joins_singleton r
  | append_singleton rest a ih =>
    rw [List.foldl_append]
    exact ih.concat a

end Range

namespace Wire

/-! ## Spans -/

/-- Where a span was called from in the end: its chain of expansions leads there and no further. -/
def Span.CalledFrom (s site : Span) : Prop :=
  Relation.ReflTransGen (fun inner outer : Span => inner.expansion = some outer) s site ∧
    site.expansion = none

theorem Span.calledFrom_callSite : (s : Span) → s.CalledFrom s.callSite
  | ⟨_, _, _, _, _, _, _, none⟩ => ⟨.refl, rfl⟩
  | ⟨_, _, _, _, _, _, _, some e⟩ =>
    have h := e.calledFrom_callSite
    ⟨.head rfl h.1, h.2⟩

/-- There is only one such place. -/
theorem Span.CalledFrom.eq {s site : Span} (h : s.CalledFrom site) : site = s.callSite := by
  obtain ⟨hchain, hnone⟩ := h
  induction hchain using Relation.ReflTransGen.head_induction_on with
  | refl =>
    obtain ⟨_, _, _, _, _, _, _, _⟩ := site
    cases hnone
    rfl
  | @head a b hab _ ih =>
    obtain ⟨_, _, _, _, _, _, _, _⟩ := a
    cases hab
    exact ih

/-- What a related place says of a span: where it was called from, and its label if that says
anything. -/
structure Span.IsRelated (directory : FilePath) (o : Origin) (s : Span) (r : Related) :
    Prop where
  place : ∃ site, s.CalledFrom site ∧ uriOf directory (o.resolve site.fileName) = .ok r.uri ∧
    site.range = .ok r.range
  labelled : ∀ label, s.label = some label → label.isEmpty = false →
    r.message = "[Note] " ++ label
  unlabelled : (∀ label, s.label = some label → label.isEmpty = true) →
    r.message = "[Note] related expression"

variable {directory : FilePath} {o : Origin} {m : Message} {located : Located} {file : Text}
  {range : Range} {spans : List Span} {places : List Related}

theorem Span.isRelated {s : Span} {r : Related} (h : s.related directory o = .ok r) :
    s.IsRelated directory o r := by
  unfold Span.related at h
  dsimp only at h
  cases hu : uriOf directory (o.resolve s.callSite.fileName) with
  | error e =>
    rw [hu] at h
    cases h
  | ok uri =>
    rw [hu] at h
    cases hr : s.callSite.range with
    | error e =>
      rw [hr] at h
      cases h
    | ok range =>
      rw [hr] at h
      cases h
      refine ⟨⟨s.callSite, s.calledFrom_callSite, hu, hr⟩, fun label hl hlabel => ?_, fun hlabel => ?_⟩
      · dsimp only
        rw [hl]
        dsimp only
        rw [hlabel]
        rfl
      · dsimp only
        cases hl : s.label with
        | none => rfl
        | some label =>
          dsimp only
          rw [hlabel label hl]
          rfl

theorem relatedSpans_forall (h : relatedSpans directory o spans = .ok places) :
    List.Forall₂ (Span.IsRelated directory o) spans places := by
  induction spans generalizing places with
  | nil =>
    cases h
    exact .nil
  | cons s rest ih =>
    unfold relatedSpans at h
    cases hs : s.related directory o with
    | error e =>
      rw [hs] at h
      cases h
    | ok r =>
      rw [hs] at h
      cases hrest : relatedSpans directory o rest with
      | error e =>
        rw [hrest] at h
        cases h
      | ok more =>
        rw [hrest] at h
        cases h
        exact .cons (Span.isRelated hs) (ih hrest)

/-! ## Messages -/

/-- Where a message stands: it joins the places that its primary spans were called from, in the file
of the first of them. A message without any stands in the place that is given. -/
inductive Message.StandsAt (o : Origin) (m : Message) (file : Text) (range : Range) :
    Text → Range → Prop
  | called {site : Span} {more : List Span} {ranges : List Range} {joined : Range}
      (sites : List.Forall₂ Span.CalledFrom (primarySpans m) (site :: more))
      (places : List.Forall₂ (fun s r => Span.range s = .ok r) (site :: more) ranges)
      (joins : joined.Joins ranges) : StandsAt o m file range (o.resolve site.fileName) joined
  | inherited (nowhere : primarySpans m = []) : StandsAt o m file range file range

theorem rangesOf_forall {ranges : List Range} (h : rangesOf spans = .ok ranges) :
    List.Forall₂ (fun s r => Span.range s = .ok r) spans ranges := by
  induction spans generalizing ranges with
  | nil =>
    cases h
    exact .nil
  | cons s rest ih =>
    unfold rangesOf at h
    cases hs : s.range with
    | error e =>
      rw [hs] at h
      cases h
    | ok r =>
      rw [hs] at h
      cases hrest : rangesOf rest with
      | error e =>
        rw [hrest] at h
        cases h
      | ok more =>
        rw [hrest] at h
        cases h
        exact .cons hs (ih hrest)

theorem Message.standsAt (h : m.place o = .ok (file, range)) :
    m.StandsAt o o.defaultFile (o.defaultRange.getD .dummy) file range := by
  unfold Message.place mergedRange at h
  dsimp only at h
  have hcalled : List.Forall₂ Span.CalledFrom (primarySpans m)
      ((primarySpans m).map Span.callSite) :=
    List.forall₂_map_right_iff.mpr (List.forall₂_same.mpr fun s _ => s.calledFrom_callSite)
  generalize (primarySpans m).map Span.callSite = sites at h hcalled
  cases hr : rangesOf sites with
  | error e =>
    rw [hr] at h
    cases h
  | ok ranges =>
    rw [hr] at h
    have hranges := rangesOf_forall hr
    cases hranges with
    | nil =>
      cases h
      exact .inherited (List.forall₂_nil_right_iff.mp hcalled)
    | @cons site first sites rest hfirst hrest =>
      cases h
      exact .called hcalled (.cons hfirst hrest) (Range.joins_foldl first rest)

theorem Message.StandsAt.congr {o' : Origin} {at' : Text} {r : Range}
    (h : m.StandsAt o file range at' r) (hresolve : o.resolve = o'.resolve) :
    m.StandsAt o' file range at' r := by
  cases h with
  | called sites places joins =>
    rw [hresolve]
    exact .called sites places joins
  | inherited nowhere => exact .inherited nowhere

/-- What a related place says of a child: where that stands, or else its parent, and its text. The
file of the parent counts only in a crate. -/
structure Message.IsRelated (directory : FilePath) (o : Origin) (file : Text) (range : Range)
    (child : Message) (r : Related) : Prop where
  place : ∃ shown, uriOf directory shown = .ok r.uri ∧
    child.StandsAt o (match o.mode with
      | .crate => file
      | .standalone => o.defaultFile) range shown r.range
  text : r.message = child.fullText

/-! ## Diagnostics -/

/-- What goes into a diagnostic. -/
theorem Message.locate_eq_ok : m.locate directory o = .ok located ↔ ∃ file range places more,
    m.place o = .ok (file, range) ∧ relatedSpans directory o (otherSpans m) = .ok places ∧
      relatedChildren directory (Origin.ofChildren o file range) m.children = .ok more ∧
      located = ⟨file, range, m.fullText, some (Severity.ofLevel m.level), some diagnosticSource,
        places ++ more⟩ := by
  obtain ⟨message, code, level, spans, children⟩ := m
  unfold Message.locate
  constructor
  · intro h
    split at h
    next => cases h
    next file range hplace =>
      split at h
      next => cases h
      next places hplaces =>
        split at h
        next => cases h
        next more hmore =>
          cases h
          exact ⟨file, range, places, more, hplace, hplaces, hmore, rfl⟩
  · rintro ⟨file, range, places, more, hplace, hplaces, hmore, rfl⟩
    simp only [hplace, hplaces, hmore]

/-- A place for the first child, and those for the others. -/
theorem relatedChildren_cons {child : Message} {rest : List Message} :
    relatedChildren directory o (child :: rest) = .ok places ↔ ∃ located uri more,
      child.locate directory o = .ok located ∧ uriOf directory located.file = .ok uri ∧
      relatedChildren directory o rest = .ok more ∧
      places = ⟨uri, located.diagnostic.range, located.diagnostic.message⟩ :: more := by
  rw [relatedChildren]
  constructor
  · intro h
    split at h
    next => cases h
    next located hlocated =>
      split at h
      next => cases h
      next uri huri =>
        cases hrest : relatedChildren directory o rest with
        | error e =>
          rw [hrest] at h
          cases h
        | ok more =>
          rw [hrest] at h
          cases h
          exact ⟨located, uri, more, hlocated, huri, rfl, rfl⟩
  · rintro ⟨located, uri, more, hlocated, huri, hmore, rfl⟩
    simp only [hlocated, huri, hmore]
    rfl

theorem relatedChildren_forall {children : List Message}
    (h : relatedChildren directory (Origin.ofChildren o file range) children = .ok places) :
    List.Forall₂ (Message.IsRelated directory o file range) children places := by
  induction children generalizing places with
  | nil =>
    unfold relatedChildren at h
    cases h
    exact .nil
  | cons child rest ih =>
    obtain ⟨located, uri, more, hlocated, huri, hmore, rfl⟩ := relatedChildren_cons.mp h
    obtain ⟨shown, r, _, _, hplace, -, -, rfl⟩ := Message.locate_eq_ok.mp hlocated
    exact .cons ⟨⟨shown, huri, (Message.standsAt hplace).congr rfl⟩, rfl⟩ (ih hmore)

/-- A message without its children. -/
def Message.alone (m : Message) : Message := { m with children := [] }

/-- A message with its children, and without all that is below them. -/
def Message.shallow (m : Message) : Message := { m with children := m.children.map alone }

/-- The place and the text of a message do not depend on its children. -/
theorem Message.locate_alone (h : m.locate directory o = .ok located) : ∃ related,
    m.alone.locate directory o =
      .ok { located with diagnostic := { located.diagnostic with related } } := by
  obtain ⟨file, range, places, more, hplace, hplaces, -, rfl⟩ := Message.locate_eq_ok.mp h
  exact ⟨places ++ [], Message.locate_eq_ok.mpr ⟨file, range, places, [], hplace, hplaces, by
    unfold relatedChildren; rfl, rfl⟩⟩

theorem relatedChildren_alone {children : List Message}
    (h : relatedChildren directory o children = .ok places) :
    relatedChildren directory o (children.map Message.alone) = .ok places := by
  induction children generalizing places with
  | nil => exact h
  | cons child rest ih =>
    obtain ⟨located, uri, more, hlocated, huri, hmore, rfl⟩ := relatedChildren_cons.mp h
    obtain ⟨related, hseen⟩ := Message.locate_alone hlocated
    exact relatedChildren_cons.mpr ⟨_, uri, more, hseen, huri, ih hmore, rfl⟩

/-- What is below the children is not seen. -/
theorem Message.locate_shallow (h : m.locate directory o = .ok located) :
    m.shallow.locate directory o = .ok located := by
  obtain ⟨file, range, places, more, hplace, hplaces, hmore, he⟩ := Message.locate_eq_ok.mp h
  exact Message.locate_eq_ok.mpr
    ⟨file, range, places, more, hplace, hplaces, relatedChildren_alone hmore, he⟩

/-- **A tree of messages is flattened faithfully.** Whenever it has a diagnostic, that stands where
the message does, and has one related place for each span that is not primary and then one for each
child, in order. Whatever is below the children makes no difference. -/
theorem Message.locate_flattens (h : m.locate directory o = .ok located) :
    m.StandsAt o o.defaultFile (o.defaultRange.getD .dummy) located.file
      located.diagnostic.range ∧
    (∃ spanPlaces childPlaces, located.diagnostic.related = spanPlaces ++ childPlaces ∧
      List.Forall₂ (Span.IsRelated directory o) (m.spans.filter fun s => !s.isPrimary)
        spanPlaces ∧
      List.Forall₂ (Message.IsRelated directory o located.file located.diagnostic.range)
        m.children childPlaces) ∧
    m.shallow.locate directory o = .ok located ∧
    ∀ (m' : Message) (located' : Located), m'.shallow = m.shallow →
      m'.locate directory o = .ok located' → located' = located := by
  have hshallow := Message.locate_shallow h
  refine ⟨?_, ?_, hshallow, fun m' located' hm hl => ?_⟩
  · obtain ⟨file, range, _, _, hplace, -, -, rfl⟩ := Message.locate_eq_ok.mp h
    exact Message.standsAt hplace
  · obtain ⟨file, range, places, more, -, hplaces, hmore, rfl⟩ := Message.locate_eq_ok.mp h
    exact ⟨places, more, rfl, relatedSpans_forall hplaces, relatedChildren_forall hmore⟩
  · have hsame := Message.locate_shallow hl
    rw [hm, hshallow] at hsame
    exact (Except.ok.inj hsame).symm

/-! An error in a macro. A child stands where it does, and has a child of its own. -/

def inMacro : Span :=
  ⟨"m.rs", 7, 7, 1, 5, true, some "here", some ⟨"a.rs", 3, 3, 2, 4, false, none, none⟩⟩

def nested : Message :=
  ⟨"bad", some ⟨"E1", none⟩, "error", [inMacro, ⟨"b.rs", 1, 2, 1, 1, false, some "", none⟩],
    [⟨"see", none, "note", [], [⟨"deep", none, "help", [inMacro], []⟩]⟩]⟩

def nestedLocated (place otherPlace : Range) : Located :=
  ⟨"/w/a.rs", place, "[E1] bad.\n[Note] here", some .error, some "prusti",
    [⟨"file:///w/b.rs", otherPlace, "[Note] related expression"⟩,
      ⟨"file:///w/a.rs", place, "see"⟩]⟩

def inCrate : Origin := ⟨"/w", .crate, "/w/lib.rs", none⟩

theorem locate_flattens_nested : ∃ located,
    located = nestedLocated ⟨⟨2, 1⟩, ⟨2, 3⟩⟩ ⟨⟨0, 0⟩, ⟨1, 0⟩⟩ ∧
    nested.locate (.ofText "/w") inCrate = .ok located ∧
    (∃ spanPlaces childPlaces, located.diagnostic.related = spanPlaces ++ childPlaces ∧
      List.Forall₂ (Span.IsRelated (.ofText "/w") inCrate) (otherSpans nested) spanPlaces ∧
      List.Forall₂ (Message.IsRelated (.ofText "/w") inCrate "/w/a.rs" ⟨⟨2, 1⟩, ⟨2, 3⟩⟩)
        nested.children childPlaces) ∧
    nested.shallow.locate (.ofText "/w") inCrate = .ok located := by
  have hlocated : nested.locate (.ofText "/w") inCrate =
      .ok (nestedLocated ⟨⟨2, 1⟩, ⟨2, 3⟩⟩ ⟨⟨0, 0⟩, ⟨1, 0⟩⟩) := by rfl
  obtain ⟨-, hrelated, hshallow, -⟩ := Message.locate_flattens hlocated
  exact ⟨_, rfl, hlocated, hrelated, hshallow⟩

end Wire

end VerifierHost
