import CommonCommunicator.Base.RawMessage
import CommonCommunicator.Lib.StreamCut

/-!
# CPVD_TCP::read_msg

`read_msg` reads from the socket into the provider's read buffer until a read
returns fewer bytes than the buffer holds, and appends every chunk to the
message. The receiver loop of `run_receiver` queues every non-empty message and
stops at an empty one, which stands for the peer's close.
-/

namespace CommonCommunicator

open Lib

/-- A result of `read`: bytes, none of them at the end of the stream, or an error. -/
inductive ReadResult
  | received (chunk : Bytes)
  | failed
  deriving DecidableEq, Repr

namespace TcpRead

/-- `BUFSIZE_READ`. -/
def readBufsize : Nat := 2048

/-- `append_msg(read_buf, msg_size)`, asserted to succeed. -/
def appendChunk (msg : CRawMessage) (readBuf : Bytes) (msgSize : Nat) : Outcome CRawMessage := do
  let data ← readBytes readBuf 0 msgSize
  let (res, msg) ← msg.appendMsg data
  assertThat (res = true)
  return msg

/-- The loop of `read_msg` on the coming results of `read`; behind them the peer has closed. The
second and third component are the results not used and the read buffer. -/
def readLoop (msg : CRawMessage) (readBuf : Bytes) :
    List ReadResult → Outcome CRawMessage × List ReadResult × Bytes
  | [] => (.ok msg, [], readBuf)
  | .failed :: results => (throwThat .rangeError, results, readBuf)
  | .received chunk :: results =>
      let readBuf := overwrite readBuf 0 chunk
      if readBufsize < chunk.length then
        (throwThat .rangeError, results, readBuf)
      else if chunk.length = 0 then
        (.ok msg, results, readBuf)
      else
        match appendChunk msg readBuf chunk.length with
        | .error f => (.error f, results, readBuf)
        | .ok msg =>
            if chunk.length = readBufsize then readLoop msg readBuf results
            else (.ok msg, results, readBuf)

def readMsg (readBuf : Bytes) (results : List ReadResult) :
    Outcome CRawMessage × List ReadResult × Bytes :=
  readLoop CRawMessage.init readBuf results

/-- The receiver loop: the buffers that it hands to `handle_protocol_chain`. Every non-empty
message takes a result of `read`, so one round more than there are results is enough. -/
def receiveLoop (appPath pvdPath : Bytes) :
    (rounds : Nat) → (readBuf : Bytes) → List ReadResult → List CRawMessage
  | 0, _, _ => []
  | rounds + 1, readBuf, results =>
      match readMsg readBuf results with
      | (.error _, _, _) => []
      | (.ok msgRaw, results, readBuf) =>
          if 0 < msgRaw.msgSize then
            msgRaw.setSource appPath pvdPath :: receiveLoop appPath pvdPath rounds readBuf results
          else
            []

/-- The buffers of a connection whose stream arrives in `chunks` and is then closed. -/
def receiveBuffers (appPath pvdPath readBuf : Bytes) (chunks : List Bytes) : List CRawMessage :=
  receiveLoop appPath pvdPath (chunks.length + 1) readBuf (chunks.map .received)

/-- Appending from a read buffer that begins with a chunk appends the chunk. -/
theorem appendChunk_of_take {msg : CRawMessage} {b chunk readBuf : Bytes}
    (hmsg : msg.Holds b) (hne : chunk ≠ []) (htake : readBuf.take chunk.length = chunk) :
    ∃ msg', appendChunk msg readBuf chunk.length = .ok msg' ∧ msg'.Holds (b ++ chunk) := by
  obtain ⟨msg', happend, hholds, -⟩ := CRawMessage.appendMsg_holds hmsg hne
  have hlen : chunk.length ≤ readBuf.length := by
    have hmin := congrArg List.length htake
    rw [List.length_take] at hmin
    omega
  have hread : readBytes readBuf 0 chunk.length = .ok chunk := by
    rw [readBytes_of_le (by omega), field, List.drop_zero, htake]
  refine ⟨msg', ?_, hholds⟩
  simp [appendChunk, hread, happend]

variable {chunks : List Bytes}

/-- One call of `read_msg` takes the first group of chunks. -/
private theorem readLoop_group {msg : CRawMessage} {b : Bytes} (hmsg : msg.Holds b)
    (readBuf : Bytes) (hchunks : ∀ c ∈ chunks, 0 < c.length ∧ c.length ≤ readBufsize) :
    ∃ msg' rest readBuf', readLoop msg readBuf (chunks.map .received) =
        (.ok msg', rest.map .received, readBuf') ∧
      msg'.Holds (b ++ (cutAtShort readBufsize chunks).headD []) ∧
      cutAtShort readBufsize rest = (cutAtShort readBufsize chunks).tail ∧
      rest.length ≤ chunks.length - 1 ∧ (∀ c ∈ rest, 0 < c.length ∧ c.length ≤ readBufsize) := by
  induction chunks generalizing msg b readBuf with
  | nil =>
      refine ⟨msg, [], readBuf, rfl, ?_, rfl, Nat.le_refl _, by simp⟩
      simpa [cutAtShort] using hmsg
  | cons chunk chunks ih =>
      obtain ⟨⟨hpos, hle⟩, hrest⟩ := List.forall_mem_cons.mp hchunks
      obtain ⟨msg₁, happend, hmsg₁⟩ := appendChunk_of_take hmsg
        (List.ne_nil_of_length_pos hpos) (take_overwrite_zero readBuf chunk)
      by_cases hfull : chunk.length = readBufsize
      · obtain ⟨msg', rest, readBuf', hloop, hholds, hcut, hlen, hforall⟩ :=
          ih hmsg₁ (overwrite readBuf 0 chunk) hrest
        refine ⟨msg', rest, readBuf', ?_, ?_, ?_, ?_, hforall⟩
        · rw [List.map_cons, readLoop]
          rw [hfull] at happend
          simp [hfull, Nat.ne_of_gt (hfull ▸ hpos), happend, hloop]
        · rw [cutAtShort_cons_full hfull, List.headD_cons, ← List.append_assoc]
          exact hholds
        · rw [cutAtShort_cons_full hfull, List.tail_cons]
          exact hcut
        · rw [List.length_cons]
          omega
      · refine ⟨msg₁, chunks, overwrite readBuf 0 chunk, ?_, ?_, ?_, by simp, hrest⟩
        · rw [List.map_cons, readLoop]
          simp [Nat.not_lt.mpr hle, Nat.ne_of_gt hpos, happend, hfull]
        · rw [cutAtShort_cons_short hfull, List.headD_cons]
          exact hmsg₁
        · rw [cutAtShort_cons_short hfull, List.tail_cons]

private theorem headD_ne_nil (hne : chunks ≠ []) (hchunks : ∀ c ∈ chunks, 0 < c.length) :
    (cutAtShort readBufsize chunks).headD [] ≠ [] ∧
      cutAtShort readBufsize chunks = (cutAtShort readBufsize chunks).headD [] ::
        (cutAtShort readBufsize chunks).tail := by
  cases chunks with
  | nil => exact absurd rfl hne
  | cons chunk chunks =>
      have hchunk : chunk ≠ [] := List.ne_nil_of_length_pos (hchunks chunk List.mem_cons_self)
      by_cases hfull : chunk.length = readBufsize
      · rw [cutAtShort_cons_full hfull]
        exact ⟨by simp [hchunk], rfl⟩
      · rw [cutAtShort_cons_short hfull]
        exact ⟨hchunk, rfl⟩

private theorem receiveLoop_cuts (appPath pvdPath : Bytes) (rounds : Nat) (readBuf : Bytes)
    (hrounds : chunks.length < rounds)
    (hchunks : ∀ c ∈ chunks, 0 < c.length ∧ c.length ≤ readBufsize) :
    List.Forall₂ (fun msgRaw cut => CRawMessage.Holds msgRaw cut ∧ cut ≠ [])
      (receiveLoop appPath pvdPath rounds readBuf (chunks.map .received))
      (cutAtShort readBufsize chunks) := by
  induction rounds generalizing chunks readBuf with
  | zero => cases hrounds
  | succ rounds ih =>
      obtain ⟨msg', rest, readBuf', hloop, hholds, hcut, hlen, hforall⟩ :=
        readLoop_group (CRawMessage.init_holds CRawMessage.defCapSize) readBuf hchunks
      rw [receiveLoop, readMsg, hloop]
      by_cases hnil : chunks = []
      · subst hnil
        have hsize : msg'.msgSize = 0 := by simpa [cutAtShort] using hholds.size
        simp [hsize, cutAtShort]
      · obtain ⟨hne, hcons⟩ := headD_ne_nil hnil fun c hc => (hchunks c hc).1
        have hpos : 0 < msg'.msgSize := by
          rw [hholds.size, List.nil_append]
          exact List.length_pos_iff.mpr hne
        have hlt : rest.length < rounds := by
          have hlen' : 0 < chunks.length := List.length_pos_iff.mpr hnil
          omega
        simp only [if_pos hpos]
        rw [hcons, ← hcut]
        exact .cons ⟨CRawMessage.setSource_holds hholds _ _, hne⟩ (ih readBuf' hlt hforall)

/-- The buffers of a connection are the groups of its chunks, cut behind every read that does not
fill the read buffer. -/
theorem receiveBuffers_cuts (appPath pvdPath readBuf : Bytes)
    (hchunks : ∀ c ∈ chunks, 0 < c.length ∧ c.length ≤ readBufsize) :
    List.Forall₂ (fun msgRaw cut => CRawMessage.Holds msgRaw cut ∧ cut ≠ [])
      (receiveBuffers appPath pvdPath readBuf chunks) (cutAtShort readBufsize chunks) :=
  receiveLoop_cuts appPath pvdPath _ readBuf (Nat.lt_succ_self _) hchunks

end TcpRead

end CommonCommunicator
