import VerifierHost.Proofs.Diagnostic.Flattening
import VerifierHost.Proofs.Diagnostic.Places
import VerifierHost.Proofs.Location.Named

/-! # Spans off the map

A message has no diagnostic exactly if a span of it, or of a message anywhere below it, was called
from a place off the map. That counts for spans that no diagnostic shows as well; the macros on the
way to the place count for nothing. -/

namespace VerifierHost

/-- The ranges that a diagnostic shows. -/
def Diagnostic.ranges (d : Diagnostic) : List Range := d.range :: d.related.map Related.range

/-- One of the two ends of a range. -/
def Range.EndsAt (r : Range) (p : Position) : Prop := r.start = p ∨ r.stop = p

namespace Wire

/-! ## Trees of messages -/

theorem Message.induction {P : Message → Prop}
    (step : ∀ m : Message, (∀ child ∈ m.children, P child) → P m) (m : Message) : P m :=
  step m fun child _ => Message.induction step child
termination_by sizeOf m
decreasing_by
  next h =>
    obtain ⟨message, code, level, spans, children⟩ := m
    have hlt : sizeOf child < sizeOf children := List.sizeOf_lt_of_mem h
    simp only [Message.mk.sizeOf_spec]
    omega

/-- A span of a message or of one below it, at any depth. -/
inductive Message.HasSpan : Message → Span → Prop
  | own {m : Message} {s : Span} (h : s ∈ m.spans) : HasSpan m s
  | descends {m child : Message} {s : Span} (hm : child ∈ m.children) (h : HasSpan child s) :
    HasSpan m s

/-- A place that a span of a message, or of one below it, was called from. -/
def Message.HasSite (m : Message) (site : Span) : Prop := ∃ s, m.HasSpan s ∧ s.CalledFrom site

mutual

/-- A message with other spans in place of its own and of those below it. -/
def Message.mapSpans (f : Span → Span) : Message → Message
  | ⟨message, code, level, spans, children⟩ =>
    ⟨message, code, level, spans.map f, Message.mapChildren f children⟩

def Message.mapChildren (f : Span → Span) : List Message → List Message
  | [] => []
  | m :: rest => m.mapSpans f :: Message.mapChildren f rest

end

variable {directory : FilePath} {o : Origin} {m : Message} {located : Located} {shown : Text}
  {range : Range} {α : Type}

theorem Message.mapChildren_eq (f : Span → Span) (children : List Message) :
    Message.mapChildren f children = children.map (Message.mapSpans f) := by
  induction children with
  | nil => rfl
  | cons m rest ih => rw [Message.mapChildren, ih, List.map_cons]

theorem mem_primarySpans {s : Span} : s ∈ primarySpans m ↔ s ∈ m.spans ∧ s.isPrimary = true :=
  List.mem_filter

theorem mem_otherSpans {s : Span} : s ∈ otherSpans m ↔ s ∈ m.spans ∧ s.isPrimary = false := by
  simp [otherSpans]

/-- A message's places are those of its primary spans, of its other spans, and those below it. -/
theorem Message.hasSite_iff {site : Span} : m.HasSite site ↔
    (∃ s ∈ primarySpans m, s.CalledFrom site) ∨ (∃ s ∈ otherSpans m, s.CalledFrom site) ∨
      ∃ child ∈ m.children, child.HasSite site := by
  constructor
  · intro ⟨s, hs, hc⟩
    cases hs with
    | own hs =>
      cases hp : s.isPrimary with
      | true => exact .inl ⟨s, mem_primarySpans.mpr ⟨hs, hp⟩, hc⟩
      | false => exact .inr (.inl ⟨s, mem_otherSpans.mpr ⟨hs, hp⟩, hc⟩)
    | descends hm hs => exact .inr (.inr ⟨_, hm, s, hs, hc⟩)
  · intro h
    rcases h with ⟨s, hs, hc⟩ | ⟨s, hs, hc⟩ | ⟨child, hm, s, hs, hc⟩
    · exact ⟨s, .own (mem_primarySpans.mp hs).1, hc⟩
    · exact ⟨s, .own (mem_otherSpans.mp hs).1, hc⟩
    · exact ⟨s, .descends hm hs, hc⟩

/-! ## One span decides -/

/-- The result of looking at some places: there is one if all of them are on the map, and otherwise
a number of one that is not. -/
inductive Judges (sites : Span → Prop) : Except PlaceError α → Prop
  | good {a : α} (h : ∀ site, sites site → site.OnMap) : Judges sites (.ok a)
  | bad {c : CoordinateError} {site : Span} (hs : sites site) (h : site.Misses c) :
    Judges sites (.error (.offMap c))

theorem Judges.congr {sites sites' : Span → Prop} {x : Except PlaceError α} (h : Judges sites x)
    (he : ∀ site, sites site ↔ sites' site) : Judges sites' x := by
  cases h with
  | good h => exact .good fun site hs => h site ((he site).mpr hs)
  | bad hs h => exact .bad ((he _).mp hs) h

theorem Judges.map {β : Type} {sites : Span → Prop} {x : Except PlaceError α} (h : Judges sites x)
    (f : α → β) : Judges sites (x.map f) := by
  cases h with
  | good h => exact .good h
  | bad hs h => exact .bad hs h

/-- Places that are looked at one after the other. -/
theorem Judges.bind {β : Type} {sites sites' : Span → Prop} {x : Except PlaceError α}
    {f : α → Except PlaceError β} (h : Judges sites x)
    (hf : ∀ a, x = .ok a → Judges sites' (f a)) :
    Judges (fun site => sites site ∨ sites' site) (x.bind f) := by
  cases h with
  | @good a h =>
    have hrest := hf a rfl
    show Judges _ (f a)
    generalize f a = y at hrest
    cases hrest with
    | good h' => exact .good fun site hs => hs.elim (h site) (h' site)
    | bad hs h' => exact .bad (.inr hs) h'
  | bad hs h => exact .bad (.inl hs) h

theorem judges_range (s : Span) : Judges (· = s) s.range := by
  rcases s.range_cases with ⟨r, hr, hspells⟩ | ⟨c, hr, hmisses⟩
  · rw [hr]
    exact .good fun site hs => hs ▸ hspells.onMap
  · rw [hr]
    exact .bad rfl hmisses

theorem rangesOf_cons (s : Span) (rest : List Span) :
    rangesOf (s :: rest) = s.range.bind fun r => (rangesOf rest).map (r :: ·) := by
  rw [rangesOf]
  cases s.range <;> rfl

theorem judges_rangesOf (spans : List Span) : Judges (· ∈ spans) (rangesOf spans) := by
  induction spans with
  | nil => exact .good nofun
  | cons s rest ih =>
    rw [rangesOf_cons]
    exact ((judges_range s).bind fun r _ => ih.map (r :: ·)).congr fun site => List.mem_cons.symm

/-- Ranges on the map can always be joined. -/
theorem judges_mergedRange (spans : List Span) : Judges (· ∈ spans) (mergedRange spans) :=
  (judges_rangesOf spans).map _

theorem Message.judges_place (m : Message) (o : Origin) :
    Judges (fun site => ∃ s ∈ primarySpans m, s.CalledFrom site) (m.place o) := by
  refine Judges.congr ((judges_mergedRange _).map _) fun site => ?_
  rw [List.mem_map]
  constructor
  · intro ⟨s, hs, he⟩
    exact ⟨s, hs, he ▸ s.calledFrom_callSite⟩
  · intro ⟨s, hs, hc⟩
    exact ⟨s, hs, hc.eq.symm⟩

/-! ## Names -/

/-- All names of files that a message is about have bytes. -/
structure Message.Named (directory : FilePath) (o : Origin) (m : Message) : Prop where
  directory : directory.HasBytes
  rootPath : o.rootPath.HasBytes
  defaultFile : o.defaultFile.HasBytes
  files : ∀ site, m.HasSite site → site.fileName.HasBytes

theorem Message.Named.place (h : m.Named directory o) (hplace : m.place o = .ok (shown, range)) :
    shown.HasBytes := by
  cases Message.standsAt hplace with
  | called sites places joins =>
    cases hs : primarySpans m with
    | nil =>
      rw [hs] at sites
      cases sites
    | cons s rest =>
      rw [hs] at sites
      cases sites with
      | cons hcalled _ =>
        have hspan : s ∈ primarySpans m := hs ▸ List.mem_cons_self
        exact Origin.hasBytes_resolve h.rootPath
          (h.files _ ⟨s, .own (mem_primarySpans.mp hspan).1, hcalled⟩)
  | inherited nowhere => exact h.defaultFile

theorem Message.Named.child {child : Message} (h : m.Named directory o)
    (hplace : m.place o = .ok (shown, range)) (hchild : child ∈ m.children) :
    child.Named directory (Origin.ofChildren o shown range) := by
  refine ⟨h.directory, h.rootPath, ?_, fun site hsite => ?_⟩
  · unfold Origin.ofChildren
    cases o.mode with
    | crate => exact h.place hplace
    | standalone => exact h.defaultFile
  · obtain ⟨s, hs, hc⟩ := hsite
    exact h.files site ⟨s, .descends hchild hs, hc⟩

/-! ## Every span decides -/

theorem relatedSpans_cons (directory : FilePath) (o : Origin) (s : Span) (rest : List Span) :
    relatedSpans directory o (s :: rest) =
      (s.related directory o).bind fun r => (relatedSpans directory o rest).map (r :: ·) := by
  rw [relatedSpans]
  cases s.related directory o <;> rfl

theorem Span.judges_related {s : Span} (hd : directory.HasBytes)
    (hs : (o.resolve s.callSite.fileName).HasBytes) :
    Judges (s.CalledFrom ·) (s.related directory o) := by
  obtain ⟨uri, huri⟩ := uriOf_ok hd hs
  unfold Span.related
  dsimp only
  rw [huri]
  refine ((judges_range s.callSite).map _).congr fun site => ⟨?_, fun hc => hc.eq⟩
  exact fun he => he ▸ s.calledFrom_callSite

theorem judges_relatedSpans {spans : List Span} (hd : directory.HasBytes)
    (hspans : ∀ s ∈ spans, (o.resolve s.callSite.fileName).HasBytes) :
    Judges (fun site => ∃ s ∈ spans, s.CalledFrom site) (relatedSpans directory o spans) := by
  induction spans with
  | nil => exact .good nofun
  | cons s rest ih =>
    rw [relatedSpans_cons]
    have hspan := Span.judges_related hd (hspans s List.mem_cons_self)
    have hrest := ih fun t ht => hspans t (List.mem_cons_of_mem _ ht)
    refine (hspan.bind fun r _ => hrest.map (r :: ·)).congr fun site => ?_
    simp

theorem relatedChildren_eq (directory : FilePath) (o : Origin) (child : Message)
    (rest : List Message) : relatedChildren directory o (child :: rest) =
      (child.locate directory o).bind fun located =>
        (uriOf directory located.file).bind fun uri =>
          (relatedChildren directory o rest).map
            (⟨uri, located.diagnostic.range, located.diagnostic.message⟩ :: ·) := by
  rw [relatedChildren]
  cases child.locate directory o with
  | error e => rfl
  | ok located =>
    dsimp only [Except.bind]
    cases uriOf directory located.file <;> rfl

theorem Message.locate_eq (m : Message) (directory : FilePath) (o : Origin) :
    m.locate directory o = (m.place o).bind fun place =>
      (relatedSpans directory o (otherSpans m)).bind fun places =>
        (relatedChildren directory (Origin.ofChildren o place.1 place.2) m.children).map fun more =>
          ⟨place.1, place.2, m.fullText, some (Severity.ofLevel m.level), some diagnosticSource,
            places ++ more⟩ := by
  obtain ⟨message, code, level, spans, children⟩ := m
  rw [Message.locate]
  cases Message.place _ o with
  | error e => rfl
  | ok place =>
    dsimp only [Except.bind]
    cases relatedSpans directory o _ with
    | error e => rfl
    | ok places =>
      dsimp only
      cases relatedChildren directory _ children <;> rfl

theorem judges_relatedChildren {children : List Message} (hd : directory.HasBytes)
    (hchildren : ∀ child ∈ children, Judges child.HasSite (child.locate directory o) ∧
      ∀ located, child.locate directory o = .ok located → located.file.HasBytes) :
    Judges (fun site => ∃ child ∈ children, child.HasSite site)
      (relatedChildren directory o children) := by
  induction children with
  | nil =>
    unfold relatedChildren
    exact .good (by simp)
  | cons child rest ih =>
    rw [relatedChildren_eq]
    obtain ⟨hchild, hfile⟩ := hchildren child List.mem_cons_self
    have hrest := ih fun t ht => hchildren t (List.mem_cons_of_mem _ ht)
    have hmore : ∀ located, child.locate directory o = .ok located →
        Judges (fun site => ∃ t ∈ rest, t.HasSite site) ((uriOf directory located.file).bind
          fun uri => (relatedChildren directory o rest).map
            (⟨uri, located.diagnostic.range, located.diagnostic.message⟩ :: ·)) := by
      intro located hlocated
      obtain ⟨uri, huri⟩ := uriOf_ok hd (hfile located hlocated)
      rw [huri]
      exact hrest.map _
    exact (hchild.bind hmore).congr fun site => by simp

theorem Message.judges_locate (h : m.Named directory o) :
    Judges m.HasSite (m.locate directory o) := by
  induction m using Message.induction generalizing o with
  | step m ih =>
    rw [Message.locate_eq]
    have hspans : Judges (fun site => ∃ s ∈ otherSpans m, s.CalledFrom site)
        (relatedSpans directory o (otherSpans m)) :=
      judges_relatedSpans h.directory fun s hs => Origin.hasBytes_resolve h.rootPath
        (h.files _ ⟨s, .own (mem_otherSpans.mp hs).1, s.calledFrom_callSite⟩)
    have hchildren : ∀ place, m.place o = .ok place →
        Judges (fun site => ∃ child ∈ m.children, child.HasSite site)
          (relatedChildren directory (Origin.ofChildren o place.1 place.2) m.children) := by
      intro place hplace
      refine judges_relatedChildren h.directory fun child hchild => ⟨?_, fun located hl => ?_⟩
      · exact ih child hchild (h.child hplace hchild)
      · obtain ⟨shown, range, _, _, hp, -, -, rfl⟩ := Message.locate_eq_ok.mp hl
        exact (h.child hplace hchild).place hp
    exact ((m.judges_place o).bind fun place hplace =>
      hspans.bind fun places _ => (hchildren place hplace).map _).congr
        fun site => Message.hasSite_iff.symm

/-! ## What does not count -/

/-- Other spans in the place of spans, called from the same places; what is said of them is kept. -/
structure KeepsSites (f : Span → Span) : Prop where
  site : ∀ s site, (f s).CalledFrom site ↔ s.CalledFrom site
  isPrimary : ∀ s, (f s).isPrimary = s.isPrimary
  label : ∀ s, (f s).label = s.label

variable {f : Span → Span}

theorem KeepsSites.callSite (h : KeepsSites f) (s : Span) : (f s).callSite = s.callSite :=
  ((h.site s _).mp (f s).calledFrom_callSite).eq

theorem Message.spans_mapSpans (f : Span → Span) (m : Message) :
    (m.mapSpans f).spans = m.spans.map f := by
  obtain ⟨message, code, level, spans, children⟩ := m
  rfl

theorem KeepsSites.primarySpans (h : KeepsSites f) (m : Message) :
    primarySpans (m.mapSpans f) = (primarySpans m).map f := by
  rw [Wire.primarySpans, Message.spans_mapSpans, List.filter_map]
  exact congrArg (List.map f ·) (List.filter_congr fun s _ => h.isPrimary s)

theorem KeepsSites.otherSpans (h : KeepsSites f) (m : Message) :
    otherSpans (m.mapSpans f) = (otherSpans m).map f := by
  rw [Wire.otherSpans, Message.spans_mapSpans, List.filter_map]
  exact congrArg (List.map f ·) (List.filter_congr fun s _ => congrArg not (h.isPrimary s))

theorem KeepsSites.place (h : KeepsSites f) (m : Message) (o : Origin) :
    (m.mapSpans f).place o = m.place o := by
  have hsites : Span.callSite ∘ f = Span.callSite := funext h.callSite
  unfold Message.place
  rw [h.primarySpans, List.map_map, hsites]

theorem KeepsSites.fullText (h : KeepsSites f) (m : Message) :
    (m.mapSpans f).fullText = m.fullText := by
  unfold Message.fullText
  rw [h.primarySpans, List.foldl_map]
  simp only [h.label]
  obtain ⟨message, code, level, spans, children⟩ := m
  rfl

theorem KeepsSites.relatedSpans (h : KeepsSites f) (directory : FilePath) (o : Origin)
    (spans : List Span) :
    relatedSpans directory o (spans.map f) = Wire.relatedSpans directory o spans := by
  induction spans with
  | nil => rfl
  | cons s rest ih =>
    have hs : (f s).related directory o = s.related directory o := by
      unfold Span.related
      rw [h.callSite, h.label]
    rw [List.map_cons, relatedSpans_cons, relatedSpans_cons, hs, ih]

theorem relatedChildren_congr {children : List Message} {g : Message → Message}
    (h : ∀ child ∈ children, (g child).locate directory o = child.locate directory o) :
    relatedChildren directory o (children.map g) = relatedChildren directory o children := by
  induction children with
  | nil => rfl
  | cons child rest ih =>
    rw [List.map_cons, relatedChildren_eq, relatedChildren_eq, h child List.mem_cons_self,
      ih fun t ht => h t (List.mem_cons_of_mem _ ht)]

/-- Only the places that spans were called from count, and not how. -/
theorem KeepsSites.locate (h : KeepsSites f) (m : Message) (directory : FilePath) (o : Origin) :
    (m.mapSpans f).locate directory o = m.locate directory o := by
  induction m using Message.induction generalizing o with
  | step m ih =>
    have hchildren : (m.mapSpans f).children = m.children.map (Message.mapSpans f) := by
      obtain ⟨message, code, level, spans, children⟩ := m
      exact Message.mapChildren_eq f children
    have hlevel : (m.mapSpans f).level = m.level := by
      obtain ⟨message, code, level, spans, children⟩ := m
      rfl
    rw [Message.locate_eq, Message.locate_eq, h.place, h.otherSpans, h.relatedSpans, hchildren,
      h.fullText, hlevel]
    simp only [relatedChildren_congr fun child hm => ih child hm _]

/-! ## What is shown -/

/-- A position that a message may show: at an end of a place that one of its spans was called from,
or of the range that it takes over. -/
def Message.Marks (m : Message) (o : Origin) (p : Position) : Prop :=
  (o.defaultRange.getD .dummy).EndsAt p ∨
    ∃ site r, m.HasSite site ∧ site.Spells r ∧ r.EndsAt p

theorem exists_of_forall₂ {β : Type} {R : α → β → Prop} {as : List α} {bs : List β}
    (h : List.Forall₂ R as bs) {b : β} (hb : b ∈ bs) : ∃ a ∈ as, R a b := by
  induction h with
  | nil => cases hb
  | cons hab _ ih =>
    rcases List.mem_cons.mp hb with rfl | hb
    · exact ⟨_, List.mem_cons_self, hab⟩
    · obtain ⟨a, ha, hr⟩ := ih hb
      exact ⟨a, List.mem_cons_of_mem _ ha, hr⟩

theorem Message.StandsAt.marks {file : Text} {r : Range} {p : Position}
    (h : m.StandsAt o file range shown r) (hp : r.EndsAt p) :
    range.EndsAt p ∨ ∃ site a, m.HasSite site ∧ site.Spells a ∧ a.EndsAt p := by
  cases h with
  | inherited nowhere => exact .inl hp
  | @called site more ranges _ sites places joins =>
    have hpart : ∃ a ∈ ranges, a.EndsAt p := by
      rcases hp with hp | hp
      · obtain ⟨a, ha, hstart⟩ := joins.start
        exact ⟨a, ha, .inl (hstart.trans hp)⟩
      · obtain ⟨a, ha, hstop⟩ := joins.stop
        exact ⟨a, ha, .inr (hstop.trans hp)⟩
    obtain ⟨a, ha, hends⟩ := hpart
    obtain ⟨place, hplace, hrange⟩ := exists_of_forall₂ places ha
    obtain ⟨s, hs, hcalled⟩ := exists_of_forall₂ sites hplace
    exact .inr ⟨place, a, ⟨s, .own (mem_primarySpans.mp hs).1, hcalled⟩,
      Span.spells_of_range hrange, hends⟩

/-- Every position that a diagnostic shows was given or is one of the message's own. -/
theorem Message.marks_of_locate (h : m.locate directory o = .ok located) {r : Range}
    (hr : r ∈ located.diagnostic.ranges) {p : Position} (hp : r.EndsAt p) : m.Marks o p := by
  obtain ⟨shown, range, places, more, hplace, hplaces, hmore, rfl⟩ := Message.locate_eq_ok.mp h
  have hown : ∀ q, range.EndsAt q → m.Marks o q := fun q hq => (Message.standsAt hplace).marks hq
  rcases List.mem_cons.mp hr with rfl | hr
  · exact hown p hp
  · obtain ⟨related, hm, rfl⟩ := List.mem_map.mp hr
    rcases List.mem_append.mp hm with hm | hm
    · obtain ⟨s, hs, hrelated⟩ := exists_of_forall₂ (relatedSpans_forall hplaces) hm
      obtain ⟨site, hcalled, -, hrange⟩ := hrelated.place
      exact .inr ⟨site, related.range, ⟨s, .own (mem_otherSpans.mp hs).1, hcalled⟩,
        Span.spells_of_range hrange, hp⟩
    · obtain ⟨child, hchild, hrelated⟩ := exists_of_forall₂ (relatedChildren_forall hmore) hm
      obtain ⟨_, -, hstands⟩ := hrelated.place
      rcases hstands.marks hp with hp | ⟨site, a, ⟨s, hs, hcalled⟩, ha, hp⟩
      · exact hown p hp
      · exact .inr ⟨site, a, ⟨s, .descends hchild hs, hcalled⟩, ha, hp⟩

/-- **A message has no diagnostic exactly if a span of it is off the map**, whether primary or not
and however deep below it, and then a number of such a span is named. What counts of a span is the
place that it was called from in the end; ranges on the map can always be joined; and every position
that is shown is one of those places', or was given, and is on the map. -/
theorem Message.offMap_iff (h : m.Named directory o) :
    ((∃ e, m.locate directory o = .error e) ↔ ∃ site, m.HasSite site ∧ ¬ site.OnMap) ∧
    (∀ e, m.locate directory o = .error e → ∃ c site,
      e = .offMap c ∧ m.HasSite site ∧ site.Misses c) ∧
    (∀ f, KeepsSites f → (m.mapSpans f).locate directory o = m.locate directory o) ∧
    (∀ sites : List Span, (∀ site ∈ sites, site.OnMap) →
      ∃ merged, mergedRange sites = .ok merged) ∧
    ∀ located, m.locate directory o = .ok located → ∀ r ∈ located.diagnostic.ranges, ∀ p,
      r.EndsAt p → m.Marks o p ∧ p.line.val ≤ 2147483647 ∧ p.character.val ≤ 2147483647 := by
  have hjudges := Message.judges_locate h
  refine ⟨⟨?_, ?_⟩, ?_, fun f hf => hf.locate m directory o, ?_, ?_⟩
  · intro ⟨e, he⟩
    rw [he] at hjudges
    cases hjudges with
    | bad hs hmisses => exact ⟨_, hs, hmisses.not_onMap⟩
  · intro ⟨site, hs, hoff⟩
    cases hl : m.locate directory o with
    | error e => exact ⟨e, rfl⟩
    | ok located =>
      rw [hl] at hjudges
      cases hjudges with
      | good hon => exact absurd (hon site hs) hoff
  · intro e he
    rw [he] at hjudges
    cases hjudges with
    | bad hs hmisses => exact ⟨_, _, rfl, hs, hmisses⟩
  · intro sites hon
    have hmerged := judges_mergedRange sites
    cases hr : mergedRange sites with
    | ok merged => exact ⟨merged, rfl⟩
    | error e =>
      rw [hr] at hmerged
      cases hmerged with
      | bad hs hmisses => exact absurd (hon _ hs) hmisses.not_onMap
  · intro located hl r hr p hp
    exact ⟨Message.marks_of_locate hl hr hp, Nat.le_of_lt_succ p.line.isLt,
      Nat.le_of_lt_succ p.character.isLt⟩

/-! A span two levels down, in a macro. The place that it was called from ends one column too far;
that the macro itself is off the map makes no difference. -/

def tooFar : Span := ⟨"a.rs", 1, 2147483648, 1, 2147483649, false, none, none⟩

def hiddenOffMap : Message :=
  ⟨"bad", none, "error", [⟨"a.rs", 1, 2147483648, 1, 2147483648, true, none, none⟩],
    [⟨"see", none, "note", [],
      [⟨"deep", none, "help", [⟨"m.rs", 0, 0, 0, 0, true, none, some tooFar⟩], []⟩]⟩]⟩

theorem offMap_iff_hidden : hiddenOffMap.Named (.ofText "/w") inCrate ∧
    hiddenOffMap.HasSite tooFar ∧ ¬ tooFar.OnMap ∧ (∃ e, hiddenOffMap.locate (.ofText "/w") inCrate = .error e) ∧
    hiddenOffMap.locate (.ofText "/w") inCrate = .error (.offMap (.character 2147483648)) := by
  have hnamed : hiddenOffMap.Named (.ofText "/w") inCrate := by
    refine ⟨FilePath.hasBytes_ofText (Text.hasBytes_ofString _), Text.hasBytes_ofString _,
      Text.hasBytes_ofString _, fun site ⟨s, hs, hc⟩ => ?_⟩
    rw [hc.eq]
    cases hs with
    | own h =>
      cases List.mem_singleton.mp h
      exact Text.hasBytes_ofString _
    | descends hm h =>
      cases List.mem_singleton.mp hm
      cases h with
      | own h => cases h
      | descends hm h =>
        cases List.mem_singleton.mp hm
        cases h with
        | own h =>
          cases List.mem_singleton.mp h
          exact Text.hasBytes_ofString _
        | descends hm h => cases hm
  have hsite : hiddenOffMap.HasSite tooFar :=
    ⟨_, .descends List.mem_cons_self (.descends List.mem_cons_self (.own List.mem_cons_self)),
      .head rfl .refl, rfl⟩
  have hoff : ¬ tooFar.OnMap := fun h => absurd (h 2147483649 (by simp [tooFar])) (by decide)
  exact ⟨hnamed, hsite, hoff, (Message.offMap_iff hnamed).1.mpr ⟨tooFar, hsite, hoff⟩, by rfl⟩

end Wire

end VerifierHost
