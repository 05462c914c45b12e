import VerifierHost.Proofs.Server.Hearing

/-! # The address of a ready server

As long as everything happens in time the address of a ready server is one that the process has
announced which is held (`Session.Listens.announces`). -/

namespace VerifierHost.Session

variable {printed : Pid → List Text.Bytes} {s : Session}

/-- An address stands in the last announcing line of what was read from a process. Read was all that
the process has printed but for what its stream still holds. When the reader is not about to go on
nothing is left unread, unless an empty chunk has ended the stream; and an unfinished line counts
once nobody can write to the stream any more. -/
def Announces (s : Session) (pid : Pid) (printed : List Text.Bytes) (address : Text) : Prop :=
  ∃ seen closed digits, printed = seen ++ s.world.unread pid .stdout ∧
    (closed = true →
      s.world.canWrite pid .stdout = false ∧ s.world.unread pid .stdout = []) ∧
    (.wake (.output pid .stdout) ∉ s.queue → [] ∈ seen ∨
      s.world.unread pid .stdout = [] ∧ closed = !s.world.canWrite pid .stdout) ∧
    lastAnnounced? (linesHeard seen closed) = some digits ∧ address = localAddress digits

theorem address_eq_some {address : Text} :
    s.server.address = some address ↔
      s.server.supervisor.state = .ready ∧ s.server.announced = some address := by
  unfold SharedServer.address
  split
  next h => rw [and_iff_right h]
  next h =>
    constructor
    · rintro ⟨⟩
    · exact fun he => absurd he.1 h

/-- While the server is ready its address is announced by the process that is held. -/
theorem Listens.announces (h : Listens printed s) (hready : s.server.supervisor.state = .ready) :
    ∃ pid address, s.server.supervisor.held = some pid ∧ s.server.address = some address ∧
      Announces s pid (printed pid) address := by
  have hheld : s.server.supervisor.held.isSome = true := by
    rw [h.steady.attended.kept.guard, hready]
    rfl
  obtain ⟨pid, hpid⟩ := Option.isSome_iff_exists.mp hheld
  obtain ⟨seen, closed, lineUse, hh⟩ := h.hears.heard pid hpid
  obtain ⟨digits, hlast, hannounced⟩ := hh.told hready
  refine ⟨pid, localAddress digits, hpid, address_eq_some.mpr ⟨hready, hannounced⟩, seen, closed,
    digits, hh.split, hh.mute, fun hidle => ?_, hlast, rfl⟩
  by_cases hempty : [] ∈ seen
  · exact .inl hempty
  right
  cases closed with
  | true =>
    obtain ⟨hno, hnil⟩ := hh.mute rfl
    exact ⟨hnil, by rw [hno]; rfl⟩
  | false =>
    have hopen : seen.any List.isEmpty = false := by
      rw [List.any_eq_false]
      intro chunk hc he
      exact hempty (List.isEmpty_iff.mp he ▸ hc)
    rcases h.steady.attended.readers _ (hh.reader rfl hopen) with hm | ⟨ha, hnil⟩
    · exact absurd hm hidle
    · have hcan : s.world.canWrite pid .stdout = true := h.steady.sound.runners.sane.canWrite ha
      exact ⟨hnil, by rw [hcan]; rfl⟩

end VerifierHost.Session
