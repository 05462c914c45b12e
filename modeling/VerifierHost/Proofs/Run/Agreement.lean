import VerifierHost.CommandLine.Run
import VerifierHost.Proofs.Run.Completion
import VerifierHost.Proofs.Run.Showing

/-! # Status and status line

The line at the end of a run gives an account of it, and no line gives two. The account follows the
diagnostics of the run unless the status is a crash, while the status follows the exit of the
verifier; that they go together is made sure of for exits that tell of errors only. -/

namespace VerifierHost

/-! ## Accounts -/

/-- What the line at the end of a verification can say. -/
inductive Account where
  | crash
  | errors (n : Nat)
  /-- A success, possibly with warnings. -/
  | success (warnings : Nat)
  deriving DecidableEq, Repr

namespace Account

def icon : Account → String
  | .crash | .errors _ => "$(error) "
  | .success 0 => "$(check) "
  | .success (_ + 1) => "$(warning) "

/-- What is said after the name of what was verified. -/
def ending (elapsed : Text) : Account → Text
  | .crash => " failed with an unexpected error"
  | .errors n => " failed with " ++ (plural n "error" ++ (" (" ++ elapsed ++ ")"))
  | .success 0 => " succeeded (" ++ elapsed ++ ")"
  | .success (n + 1) => " succeeded with " ++ (plural (n + 1) "warning" ++ (" (" ++ elapsed ++ ")"))

def line (target : VerificationTarget) (name elapsed : Text) (a : Account) : Text :=
  a.icon ++ ("Verification of " ++ subject target name ++ a.ending elapsed)

/-- The account that the diagnostics of a run give, unless it crashed. -/
def ofStore (crashed : Bool) (store : Store) : Account :=
  if crashed then .crash
  else if store.hasErrors then .errors (store.count .error)
  else .success (store.count .warning)

end Account

/-- A status line gives this account of a verification. -/
def StatusText.Tells (t : StatusText) (target : VerificationTarget) (name : Text) (a : Account) :
    Prop := ∃ elapsed, t.text = a.line target name elapsed

theorem StatusText.ended_tells (crashed : Bool) (store : Store) (target : VerificationTarget)
    (name : Text) (seconds : Option Float) :
    (StatusText.ended crashed store target name seconds).Tells target name
      (.ofStore crashed store) := by
  have assoc : ∀ a b c : Text, a ++ b ++ c = a ++ (b ++ c) := fun a b c =>
    congrArg Text.mk (List.append_assoc ..)
  unfold StatusText.ended Account.ofStore
  dsimp only
  split
  next => exact ⟨"", by simp only [Account.line, Account.icon, Account.ending, assoc]⟩
  next =>
    split
    next => exact ⟨_, by simp only [Account.line, Account.icon, Account.ending, assoc]; rfl⟩
    next =>
      split
      next hw =>
        obtain ⟨n, hn⟩ := Nat.exists_eq_succ_of_ne_zero
          (Nat.pos_iff_ne_zero.mp (of_decide_eq_true hw))
        rw [hn]
        exact ⟨_, by simp only [Account.line, Account.icon, Account.ending, assoc]; rfl⟩
      next hw =>
        have hn : store.count .warning = 0 :=
          Nat.eq_zero_of_not_pos fun h => hw (decide_eq_true h)
        rw [hn]
        exact ⟨_, by simp only [Account.line, Account.icon, Account.ending, assoc]; rfl⟩

/-! ## No line gives two accounts -/

theorem Text.append_cancel {a b c : Text} (h : a ++ b = a ++ c) : b = c := by
  have hpoints := congrArg Text.points h
  rw [Text.points_append, Text.points_append] at hpoints
  exact congrArg Text.mk (List.append_cancel_left hpoints)

/-- The digits at the beginning of a text. -/
def leadingDigits (t : Text) : List CodePoint := t.points.takeWhile (·.isIn Char.isDigit)

theorem leadingDigits_plural (n : Nat) (noun : String) (t : Text) :
    leadingDigits (plural n noun ++ t) = (Nat.toDigits 10 n).map .char := by
  have hplural : ((plural n noun : Text) ++ t).points =
      (Nat.toDigits 10 n).map .char ++
        .char ' ' ::
          ((noun ++ if n = 1 then "" else "s" : String).toList.map .char ++ t.points) := by
    simp [plural, Text.ofString, Text.ofChars]
  have hdigits : ∀ c ∈ (Nat.toDigits 10 n).map CodePoint.char, c.isIn Char.isDigit = true := by
    intro c hc
    obtain ⟨d, hd, rfl⟩ := List.mem_map.mp hc
    exact Nat.isDigit_of_mem_toDigits (by decide) (by decide) hd
  rw [leadingDigits, hplural, List.takeWhile_append_of_pos hdigits, List.takeWhile_cons]
  simp [CodePoint.isIn]

theorem plural_unique {n m : Nat} {noun : String} {t u : Text}
    (h : (plural n noun : Text) ++ t = plural m noun ++ u) : n = m := by
  have hdigits : (Nat.toDigits 10 n).map CodePoint.char = (Nat.toDigits 10 m).map .char := by
    rw [← leadingDigits_plural n noun t, h, leadingDigits_plural]
  have hsame := List.map_inj_right (fun a b hab => CodePoint.char.inj hab) |>.mp hdigits
  rw [← Nat.ofDigitChars_toDigits (b := 10) (n := n) (by decide) (by decide), hsame,
    Nat.ofDigitChars_toDigits (by decide) (by decide)]

/-- A text that begins without a digit begins with no number. -/
theorem plural_ne {n : Nat} {noun : String} {t u : Text} (hu : leadingDigits u = []) :
    (plural n noun : Text) ++ t ≠ u := by
  intro h
  have hdigits := leadingDigits_plural n noun t
  rw [h, hu] at hdigits
  exact Nat.toDigits_ne_nil (List.map_eq_nil_iff.mp hdigits.symm)

namespace Account

variable {target : VerificationTarget} {name elapsed elapsed' : Text} {a b : Account}

theorem icon_cases (a : Account) :
    a.icon = "$(error) " ∨ a.icon = "$(check) " ∨ a.icon = "$(warning) " := by
  rcases a with _ | _ | (_ | _) <;> simp [icon]

/-- Icons differ in their third letter, which is that of the line. -/
theorem icon_eq_of_line (h : a.line target name elapsed = b.line target name elapsed') :
    a.icon = b.icon := by
  have third : ∀ (c : Account) (rest : Text),
      ((c.icon : Text) ++ rest).points[2]? = (c.icon : Text).points[2]? := by
    intro c rest
    apply List.getElem?_append_left
    rcases c.icon_cases with hc | hc | hc <;> rw [hc] <;> decide
  have hthird : (a.icon : Text).points[2]? = (b.icon : Text).points[2]? := by
    rw [← third a, ← third b]
    exact congrArg (fun t : Text => t.points[2]?) h
  revert hthird
  rcases a.icon_cases with ha | ha | ha <;> rcases b.icon_cases with hb | hb | hb <;>
    rw [ha, hb] <;> decide

theorem eq_of_line (h : a.line target name elapsed = b.line target name elapsed') : a = b := by
  have hicon := icon_eq_of_line h
  have hending : a.ending elapsed = b.ending elapsed' := by
    rw [line, line, hicon] at h
    exact Text.append_cancel (Text.append_cancel h)
  rcases a with _ | n | (_ | n) <;> rcases b with _ | m | (_ | m)
  case crash.crash | success.zero.success.zero => rfl
  case crash.errors =>
    have hrest : Text.ofString "an unexpected error" = _ :=
      Text.append_cancel (a := " failed with ") hending
    exact absurd hrest.symm (plural_ne rfl)
  case errors.crash =>
    have hrest : _ = Text.ofString "an unexpected error" :=
      Text.append_cancel (a := " failed with ") hending
    exact absurd hrest (plural_ne rfl)
  case errors.errors =>
    rw [ending, ending] at hending
    rw [plural_unique (Text.append_cancel hending)]
  case success.succ.success.succ =>
    rw [ending, ending] at hending
    rw [Nat.succ.inj (plural_unique (Text.append_cancel hending))]
  -- the icons of all other pairs differ
  all_goals exact absurd hicon (by simp [icon])

end Account

theorem StatusText.Tells.unique {t : StatusText} {target : VerificationTarget} {name : Text}
    {a b : Account} (ha : t.Tells target name a) (hb : t.Tells target name b) : a = b := by
  obtain ⟨elapsed, ha⟩ := ha
  obtain ⟨elapsed', hb⟩ := hb
  exact Account.eq_of_line (ha.symm.trans hb)

/-! ## Which outcomes agree with their lines -/

/-- The status of an outcome and its line go together: both tell of a success, both of as many
errors as the store holds, or both of a crash; and if the command ends with code zero, then the line
does not tell of a failure. -/
structure RunOutcome.Agrees (o : RunOutcome) (store : Store) (target : VerificationTarget)
    (name : Text) : Prop where
  verified : o.status = .verified ↔ ∃ warnings, o.text.Tells target name (.success warnings)
  errors : o.status = .errors ↔
    ∃ n, 0 < n ∧ n = store.count .error ∧ o.text.Tells target name (.errors n)
  crash : o.status = .crash ↔ o.text.Tells target name .crash
  exitCode : CommandLine.exitCodeOf o.status = 0 →
    ¬ o.text.Tells target name .crash ∧ ∀ n, ¬ o.text.Tells target name (.errors n)

theorem Store.hasErrors_iff {s : Store} : s.hasErrors = true ↔ 0 < s.count .error :=
  decide_eq_true_iff

theorem RunOutcome.agrees_iff {o : RunOutcome} {judged : RunStatus} {store : Store}
    {target : VerificationTarget} {name : Text} (hstatus : o.status = judged.settle store)
    (htext : o.text = .ended (decide (o.status = .crash)) store target name o.seconds) :
    o.Agrees store target name ↔ ¬ (judged = .verified ∧ store.hasErrors = true) := by
  have htells : ∀ a, o.text.Tells target name a ↔
      a = .ofStore (decide (o.status = .crash)) store := by
    have hended := StatusText.ended_tells (decide (o.status = .crash)) store target name o.seconds
    rw [← htext] at hended
    exact fun a => ⟨fun ha => ha.unique hended, fun ha => ha ▸ hended⟩
  constructor
  · rintro hagrees ⟨rfl, herrors⟩
    -- the status is that of the exit, and the line counts errors all the same
    have hverified : o.status = .verified := hstatus
    obtain ⟨warnings, hw⟩ := hagrees.verified.mp hverified
    rw [htells, hverified, Account.ofStore, if_neg (by decide), if_pos herrors] at hw
    cases hw
  · intro hnot
    cases hs : o.status with
    | crash =>
      constructor <;> simp [htells, hs, Account.ofStore, CommandLine.exitCodeOf]
    | errors =>
      have herrors : store.hasErrors = true := by
        rw [hs] at hstatus
        cases judged <;> simp [RunStatus.settle] at hstatus
        exact hstatus
      have hcount := Store.hasErrors_iff.mp herrors
      constructor <;> simp [htells, hs, Account.ofStore, herrors, CommandLine.exitCodeOf, hcount]
    | verified =>
      have hjudged : judged = .verified := by
        rw [hs] at hstatus
        cases judged <;> simp [RunStatus.settle] at hstatus
        · rfl
        · split at hstatus <;> cases hstatus
      have herrors : store.hasErrors = false := by
        cases he : store.hasErrors with
        | false => rfl
        | true => exact absurd ⟨hjudged, he⟩ hnot
      constructor <;> simp [htells, hs, Account.ofStore, herrors]

theorem RunStatus.ofCode_verified_iff {code : ExitCode} :
    ofCode code = .verified ↔ code = some 0 := by
  unfold ofCode
  split <;> simp_all

namespace Engine

/-- A verifier is judged to have verified if it exits with code zero and shows no crash. -/
theorem judgement_verified_iff {e : Engine} {m : Move} {j : Judgement}
    (h : e.judgement? m = some j) :
    j.status = .verified ↔ ∃ pid moment r, m = .exit pid (some 0) moment ∧ e.run? pid = some r ∧
      showsCrash r.stderrText = false := by
  cases m with
  | launch | abort | output | awaitNews | drawHints | takeChanged => cases h
  | refuse target name =>
    rw [← Option.some.inj h]
    simp
  | exit pid code moment =>
    obtain ⟨r, hr, rfl⟩ := Option.map_eq_some_iff.mp h
    dsimp only
    constructor
    · intro hv
      unfold RunStatus.classify at hv
      split at hv
      next => cases hv
      next hcrash =>
        rw [RunStatus.ofCode_verified_iff] at hv
        exact ⟨pid, moment, r, by rw [hv], hr, by simpa using hcrash⟩
    · rintro ⟨pid', moment', r', hm, hr', hcrash⟩
      cases hm
      cases hr.symm.trans hr'
      rw [RunStatus.classify, hcrash]
      rfl

/-- **When status and line of a run agree.** They do unless its verifier exits with code zero and
shows no crash though an error was retained: then the run counts as verified, and so does the
command, while the line says that it failed. -/
theorem completed_agrees_iff (e : Engine) (m : Move) (o : RunOutcome)
    (h : (e.play m).ending = some (.ended o)) :
    let store := (e.play m).engine.board.store
    ∃ j, e.judgement? m = some j ∧
      (o.Agrees store j.target j.name ↔ ¬ (store.hasErrors = true ∧
        ∃ pid moment r, m = .exit pid (some 0) moment ∧ e.run? pid = some r ∧
          showsCrash r.stderrText = false)) := by
  intro store
  obtain ⟨j, hj, hstatus, htext, -⟩ := play_ended h
  refine ⟨j, hj, ?_⟩
  rw [RunOutcome.agrees_iff hstatus htext, judgement_verified_iff hj, and_comm]

/-! An error is reported, and then the verifier exits with code zero. -/

def acquitted : Engine :=
  ((Chronicle.start (.idle (.ofText "/w") .default true)).addAll
    [.launch .file "a.rs" (Chronicle.fileInvocation "/w/a.rs") 1 .zero,
     .output 1 .stderr [Chronicle.errorLine "/w/a.rs"] true]).engine

theorem acquitted_disagrees : ∃ o j,
    (acquitted.play (.exit 1 (some 0) .zero)).ending = some (.ended o) ∧
      acquitted.judgement? (.exit 1 (some 0) .zero) = some j ∧
      ¬ o.Agrees (acquitted.play (.exit 1 (some 0) .zero)).engine.board.store j.target j.name := by
  obtain ⟨⟨o, h⟩, herrors, hquiet⟩ : (acquitted.play (.exit 1 (some 0) .zero)).Completes ∧
      (acquitted.play (.exit 1 (some 0) .zero)).engine.board.store.hasErrors = true ∧
      (acquitted.run? 1).map (fun r => showsCrash r.stderrText) = some false := by
    decide +kernel
  obtain ⟨r, hr, hquiet⟩ := Option.map_eq_some_iff.mp hquiet
  obtain ⟨j, hj, hiff⟩ := completed_agrees_iff acquitted (.exit 1 (some 0) .zero) o h
  exact ⟨o, j, h, hj, fun hagrees => hiff.mp hagrees ⟨herrors, 1, .zero, r, rfl, hr, hquiet⟩⟩

end Engine

end VerifierHost
