import VerifierHost.Process.Capture
import VerifierHost.Proofs.Run.Delivery

/-! # A stream means what its bytes mean

The texts that a reader hands on are those of one decoder that is fed chunk by chunk, and a decoder
goes on where it was. So the texts put together are what the bytes of the stream mean as a whole,
and where the stream was cut does not show. -/

namespace VerifierHost

open Text (Bytes)
open Text.Utf8 (Decodes)

/-- No text that is handed on is empty. -/
theorem ne_nil_of_mem_texts {d : Text.Utf8} {closed : Bool} {chunks : List Bytes}
    {text : List Char} (h : text ∈ (readChunks d closed chunks).texts) : text ≠ [] := by
  have hfinish : ∀ t ∈ [d.finish].filter (!·.isEmpty), t ≠ [] := by simp
  induction chunks generalizing d with
  | nil =>
    cases closed with
    | true => exact hfinish text h
    | false => cases h
  | cons chunk rest ih =>
    unfold readChunks at h
    split at h
    next => exact hfinish text h
    next =>
      dsimp only at h
      split at h
      next => exact ih h (by simp)
      next hne =>
        rcases List.mem_cons.mp h with rfl | h
        · exact fun he => hne (List.isEmpty_iff.mpr he)
        · exact ih h (by simp)

/-- A stream without empty chunks is read to its end. -/
theorem left_readChunks (d : Text.Utf8) {chunks : List Bytes}
    (hfull : chunks.any List.isEmpty = false) : (readChunks d true chunks).left = [] := by
  induction chunks generalizing d with
  | nil => rfl
  | cons chunk rest ih =>
    rw [List.any_cons, Bool.or_eq_false_iff] at hfull
    simpa [readChunks, hfull.1] using ih _ hfull.2

theorem any_isEmpty_eq_false {chunks : List Bytes} (h : ∀ chunk ∈ chunks, chunk ≠ []) :
    chunks.any List.isEmpty = false := by
  simpa using h

/-- **A stream is decoded as a whole**, however it was cut into chunks. It is read to its end, and
all its chunks with it; the texts that are handed on are not empty, and put together they are the
one text that the bytes of the stream mean, in which each piece that spells no character is
replaced. Another division of the same bytes gives the same text. -/
theorem stream_decodes {chunks : List Bytes} (hfull : ∀ chunk ∈ chunks, chunk ≠ []) :
    (readChunks .start true chunks).ended = true ∧ (readChunks .start true chunks).left = [] ∧
    (∀ text ∈ textsOf chunks, text ≠ []) ∧
    (∀ text, Decodes chunks.flatten text ↔ text = (textsOf chunks).flatten) ∧
    ∀ division : List Bytes, (∀ chunk ∈ division, chunk ≠ []) →
      division.flatten = chunks.flatten →
      (textsOf division).flatten = (textsOf chunks).flatten := by
  have htext : ∀ division : List Bytes, (∀ chunk ∈ division, chunk ≠ []) →
      (textsOf division).flatten = Text.Utf8.decode division.flatten := fun division h =>
    flatten_readChunks .start (any_isEmpty_eq_false h)
  refine ⟨by rw [ended_readChunks, Bool.true_or], left_readChunks _ (any_isEmpty_eq_false hfull),
    fun text ht => ne_nil_of_mem_texts ht, fun text => ?_, fun division hdivision he => ?_⟩
  · rw [htext chunks hfull]
    exact Text.Utf8.decodes_iff
  · rw [htext division hdivision, htext chunks hfull, he]

/-- The euro sign in two chunks, then the half of a surrogate pair in two more, of which all three
bytes are replaced, and a character that is never completed. -/
theorem stream_decodes_cut :
    let chunks : List Bytes := [[0x61, 0xE2], [0x82], [0xAC, 0xED, 0xA0], [0x80, 0xF0, 0x9F]]
    (∀ chunk ∈ chunks, chunk ≠ []) ∧
      Decodes chunks.flatten ['a', '€', '\uFFFD', '\uFFFD', '\uFFFD', '\uFFFD'] ∧
      textsOf chunks = [['a'], ['€'], ['\uFFFD', '\uFFFD', '\uFFFD'], ['\uFFFD']] := by
  have hfull : ∀ chunk ∈ ([[0x61, 0xE2], [0x82], [0xAC, 0xED, 0xA0], [0x80, 0xF0, 0x9F]] :
      List Bytes), chunk ≠ [] := by decide
  exact ⟨hfull, ((stream_decodes hfull).2.2.2.1 _).mpr (by decide), by decide⟩

end VerifierHost
