import CommonCommunicator.Protocol.UniversalCmd

/-!
# The grammar of CPUniversalCMD frames

`unpack` is meant to take exactly the well-formed frames and to store what they
carry, reading nothing outside the frame. The frame is here the whole memory
behind the message pointer, so that every read behind it shows as undefined
behaviour.
-/

namespace CommonCommunicator.UniversalCmd

open Lib

/-- `unpack` of the byte string `s`, which ends where the memory ends, returns; it returns true
on the well-formed frames only; and it then stored the payload and the path of the frame. -/
def DecodesGrammar (cmd : UniversalCmd) (payload : CRawMessage) (s : Bytes) : Prop :=
  ∃ res cmd' payload', cmd.unpack payload s s.length = .ok (res, cmd', payload') ∧
    (res = true ↔ WellFormed s) ∧
    (res = true → 0 < payloadSize s →
      payload'.content = field s (headerSize s) (payloadSize s)) ∧
    (res = true → hasFrom s → cmd'.mFrom = owner s)

/-- The decoder follows the grammar on the well-formed frames that are longer than a bare header,
and on no other byte string. -/
theorem decodesGrammar_iff (cmd : UniversalCmd) {payload : CRawMessage} {b : Bytes}
    (hp : payload.Holds b) (s : Bytes) :
    DecodesGrammar cmd payload s ↔ WellFormed s ∧ UniversalHeader.size < s.length := by
  constructor
  · rintro ⟨res, cmd', payload', hunpack, hgrammar, -, -⟩
    obtain ⟨hsize, -⟩ := unpack_eq_ok hp hunpack
    exact ⟨hgrammar.mp (unpack_true hunpack), hsize⟩
  · rintro ⟨hwf, hsize⟩
    obtain ⟨cmd', payload', hunpack, -, hpath, hholds, -⟩ :=
      unpack_of_wellFormed cmd hp hwf hsize []
    rw [List.append_nil] at hunpack
    refine ⟨true, cmd', payload', hunpack, ?_, ?_, ?_⟩
    · exact iff_of_true rfl hwf
    · intro _ hpos
      exact (hholds hpos).content_eq
    · intro _ hfrom
      rw [hpath, if_pos hfrom]

/-- A frame with a path and a one-byte payload. -/
def sampleFrame : Bytes :=
  frame { header := { cleared.header with flag := 1, state := 1, msgId := 1 }, mFrom := [] } 0
    [0x41] [0x61]

theorem sampleFrame_decodesGrammar : DecodesGrammar cleared CRawMessage.init sampleFrame :=
  (decodesGrammar_iff cleared (CRawMessage.init_holds CRawMessage.defCapSize)
    sampleFrame).mpr (by decide)

/-- The frame that `pack` makes of an empty message without a sender's path. -/
def bareHeader : Bytes :=
  UniversalHeader.encode { cleared.header with hsize := 24, flag := 1, state := 1, msgId := 1 }

/-- A frame of 25 bytes whose header size wraps the length check around. -/
def wrappedFrame : Bytes :=
  UniversalHeader.encode { cleared.header with hsize := 65535, payloadSize := 1, flag := 1 } ++
    [0x41]

/-- A bare header is well formed and trips an assertion; the wrapped frame is not, and the
decoder reads 65510 bytes behind it. -/
theorem grammar_violations :
    (WellFormed bareHeader ∧ ¬DecodesGrammar cleared CRawMessage.init bareHeader) ∧
      cleared.unpack CRawMessage.init wrappedFrame wrappedFrame.length = .error .undefined ∧
      ¬DecodesGrammar cleared CRawMessage.init wrappedFrame := by
  have hwrapped : cleared.unpack CRawMessage.init wrappedFrame wrappedFrame.length =
      .error .undefined := by rfl
  refine ⟨⟨by decide, ?_⟩, hwrapped, ?_⟩
  · rintro ⟨res, cmd', payload', hunpack, -⟩
    rw [unpack_of_short _ _ _ (by decide)] at hunpack
    cases hunpack
  · rintro ⟨res, cmd', payload', hunpack, -⟩
    rw [hwrapped] at hunpack
    cases hunpack

end CommonCommunicator.UniversalCmd
